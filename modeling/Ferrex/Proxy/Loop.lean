import Ferrex.Daemon.Spawn
import Ferrex.Lib.Transition
import Ferrex.Proxy.Track

/-
  The proxy between a client and the daemons it connects to:
  the main loop with its reconnect rounds, and the pump that
  copies the lines of a daemon to stdout.

  Main declarations:
    * `AfterHello`, `Stage`, `Phase`, `Pump`
    * `Effect`, `Session`
    * `Session.onLoss`, `Session.adopt`, `Session.roundFailed`
    * `Event`, `Session.next`, `machine`
-/

------------------------------------------------------------
-- State
------------------------------------------------------------

namespace Ferrex

namespace Proxy

open Daemon.Spawn (AttemptError RefusalKind)

variable {Line Value : Type}

/- How many times a daemon is tried in a round. -/
def maxAttempts : Nat := 3

/- What the client is told of a request that is lost. -/
def restartMessage : String := "ferrex daemon restarted, retry"

/-
  What the user is told to do when the executable was
  replaced.
-/
def mcpHint : String :=
  "run /mcp reconnect so Claude starts the new ferrex binary"

/- What a new connection has to be told after its hello. -/
inductive AfterHello where
| replayDrop
| replayForward
| resendKept
| nothing
deriving DecidableEq

/- A kept request which a later round will send again. -/
structure ResendPending where
  generation : Nat
  attemptsUsed : Nat
deriving DecidableEq

/-
  Its attempts count only while it is the one that is kept.
-/
def ResendPending.attemptsCarried
    (codec : Codec Line Value)
    (p : ResendPending)
    (t : Tracker Line Value) : Nat :=
  if (t.keptInFlight codec).any
      (fun kept => kept.generation = p.generation) then
    p.attemptsUsed
  else
    0

/-
  An attempt of a round: its backoff, then what it awaits.
  Once it is connected it has the key of its connection.
-/
inductive Stage (Line Value : Type) where
| backoff
| connect
| replayInitialize
    (key : String)
    (id : Value)
    (initialized : Option (Numbered Line))
| response
    (key : String)
    (id : Value)
    (initialized : Option (Numbered Line))
| replayInitialized (key : String)
| resendInitialize (key : String) (id : Value)
| resendResponse (key : String) (id : Value)
| resend (key : String)
deriving DecidableEq

/-
  Where the main task is: in a round, the one at startup if
  there is nothing to do after the hello, with the attempts
  used and whether a child has exited early; in `flush_queue`
  or `forward`, or a write of them; in `drain`; in `on_loss`
  until the pump has stopped; or in `await_request`.
-/
inductive Phase (Line Value : Type) where
| round
    (after : Option AfterHello)
    (attempts : Nat)
    (early : Bool)
    (stage : Stage Line Value)
| flush
| flushing
| forward
| forwarding
| drain
| drainCheck
| drainBlocked
| loss
| disconnected
| exited
deriving DecidableEq

/-
  The next call of the pump.  It can be aborted where it
  reads and where it is parked.
-/
inductive Pump (Line : Type) where
| stopped
| reading
| tryAcquire
| parked
| takeHeld
| show (line : Line)
| send (line : Line)
| check
| notify
| ended
| done

namespace Pump

/- The pump can be joined at this point. -/
def joinable : Pump Line → Bool
| .stopped => true
| .reading => true
| .parked => true
| .done => true
| _ => false

end Pump

/- Why a line is written to the daemon. -/
inductive Origin where
| client
| replay
| resend
deriving DecidableEq

/-
  What the proxy does, as a history: lines taken from stdin,
  and whether they became the kept first request, attempts,
  with the kept request that they are to re-send, writes to a
  connection that were begun, lines that the pump or an
  attempt has read, lines of the pump that were shown to the
  tracker, and what was queued for stdout: lines of the pump,
  a line that a round has shown and `forwarded`, errors.
-/
inductive Effect (Line Value : Type) where
| received
    (line : Numbered Line)
    (kind : ClientLine)
    (kept : Bool)
| attempt (kept : Option Nat)
| written
    (conn : Nat)
    (origin : Origin)
    (line : Numbered Line)
| read (conn : Nat) (line : Line)
| answered (conn : Nat) (line : Line)
| shown (conn : Nat) (line : Line)
| queued (conn : Nat) (line : Line)
| forwarded (conn : Nat) (line : Line)
| error (id : Value) (message : String)
| listChanged
| exit (code : Nat)

/- What is fixed when the proxy starts. -/
structure Setup where
  startupMtime : Option Nat
  replayTimeout : String

/- The binary, at the end of a round. -/
structure Exe where
  present : Bool
  mtime : Option Nat

/-
  The state of the proxy's tasks, and the history of their
  effects.
-/
structure Session (Line Value : Type) where
  tracker : Tracker Line Value
  queue : List (Numbered Line)
  held : Option Line
  pump : Pump Line
  notified : Bool
  initialisedAtLoss : Bool
  pending : Option ResendPending
  lastKey : String
  phase : Phase Line Value
  conn : Nat
  received : Nat
  log : List (Effect Line Value)

namespace Session

/- The main loop is at another stage. -/
def «at»
    (s : Session Line Value)
    (phase : Phase Line Value) : Session Line Value :=
  { s with phase := phase }

/- The pump is at another stage. -/
def pumping
    (s : Session Line Value)
    (pump : Pump Line) : Session Line Value :=
  { s with pump := pump }

/- The tracker has changed. -/
def tracking
    (s : Session Line Value)
    (t : Tracker Line Value) : Session Line Value :=
  { s with tracker := t }

/- One more effect. -/
def record
    (s : Session Line Value)
    (e : Effect Line Value) : Session Line Value :=
  { s with log := s.log ++ [e] }

/- `exit_via_writer` -/
def exit
    (s : Session Line Value)
    (code : Nat) : Session Line Value :=
  (s.record (.exit code)).at .exited

/- A line is written on the present connection. -/
def write
    (s : Session Line Value)
    (origin : Origin)
    (line : Numbered Line) : Session Line Value :=
  s.record (.written s.conn origin line)

/- The tracker is shown a line of the daemon. -/
def onDaemonLine
    (codec : Codec Line Value)
    (s : Session Line Value)
    (line : Line) : Session Line Value :=
  s.tracking (s.tracker.onDaemonLine codec line)

/- Answers requests that were taken out of the tracker. -/
def answer
    (s : Session Line Value)
    (taken : Tracker Line Value × List Value)
    (message : String) : Session Line Value :=
  { s with
    tracker := taken.1
    log := s.log ++ taken.2.map (fun id => .error id message) }

------------------------------------------------------------
-- The Client
------------------------------------------------------------

section Client

variable (codec : Codec Line Value)

/- The tracker is shown a line of the client. -/
def clientLine
    (s : Session Line Value)
    (line : Line) : Tracker Line Value × ClientLine :=
  s.tracker.onClientLine codec ⟨s.received, line⟩

/- A round of attempts begins. -/
def startRound
    (s : Session Line Value)
    (after : AfterHello)
    (used : Nat) : Session Line Value :=
  s.at (.round (some after) used false .backoff)

/- Takes a line from stdin and tracks it. -/
def receive
    (s : Session Line Value)
    (line : Line) : Session Line Value :=
  { s with
    tracker := (s.clientLine codec line).1
    received := s.received + 1
    log := s.log ++
      [.received ⟨s.received, line⟩ (s.clientLine codec line).2
        ((s.clientLine codec line).1.keeps s.received)] }

/- A line waits to be written. -/
def push
    (s : Session Line Value)
    (line : Numbered Line) : Session Line Value :=
  { s with queue := s.queue ++ [line] }

/- `wait_with_stdin` takes a line. -/
def waitLine
    (s : Session Line Value)
    (line : Line) : Session Line Value :=
  if (s.clientLine codec line).2 = .cacheOnly then
    s.receive codec line
  else
    (s.receive codec line).push ⟨s.received, line⟩

/- `await_request` takes a line. -/
def awaitLine
    (s : Session Line Value)
    (line : Line) : Session Line Value :=
  if (s.clientLine codec line).2 = .request then
    (((s.receive codec line).push ⟨s.received, line⟩).tracking
      ((s.clientLine codec line).1.setLink
        .reconnecting)).startRound
      (if (s.clientLine codec line).1.replaysHandshake then
        .replayDrop
      else
        .nothing) 0
  else
    s.receive codec line

/- `forward` takes a line and writes it. -/
def forwardLine
    (s : Session Line Value)
    (line : Line) : Session Line Value :=
  ((s.receive codec line).write .client
    ⟨s.received, line⟩).at .forwarding

------------------------------------------------------------
-- A Loss
------------------------------------------------------------

/- The kept request is re-sent unless it has been too often. -/
def reconnectNow
    (s : Session Line Value)
    (kept : KeptRequest Line Value)
    (used : Nat) : Session Line Value :=
  if maxAttempts ≤ used then
    s.exit 1
  else
    (s.tracking (s.tracker.setLink .reconnecting)).startRound
      (if kept.isInitialize then .replayForward else .resendKept)
      used

/- The line that the aborted pump had in hand. -/
def takeHeld (s : Session Line Value) : Session Line Value :=
  match s.held with
  | some line =>
      (({ s with held := none }.onDaemonLine codec line).record
        (.shown s.conn line)).record (.queued s.conn line)
  | none => s

/- The attempts that the kept request has used. -/
def attemptsUsed (s : Session Line Value) : Nat :=
  match s.pending with
  | some p => p.attemptsCarried codec s.tracker
  | none => 0

/- The link is down, and the requests of the queue are lost. -/
def linkDown (s : Session Line Value) : Session Line Value :=
  { s with
    queue := []
    tracker := s.tracker.setLink .down
    initialisedAtLoss := s.tracker.initialised
    pending := none
    pump := .stopped }

/- `on_daemon_loss`, and what `on_loss` does next. -/
def onDaemonLoss
    (s : Session Line Value)
    (used : Nat) : Session Line Value :=
  match s.tracker.keptInFlight codec with
  | none =>
      (s.answer s.tracker.takeInFlight restartMessage).at
        .disconnected
  | some kept =>
      (s.answer (s.tracker.takeInFlightExcept codec kept.id)
        restartMessage).reconnectNow kept used

/- What the main loop does once the connection is lost. -/
def onLoss (s : Session Line Value) : Session Line Value :=
  ((s.takeHeld codec).linkDown).onDaemonLoss codec
    ((s.takeHeld codec).attemptsUsed codec)

end Client

------------------------------------------------------------
-- A Round
------------------------------------------------------------

/-
  The versions differ, or the executable is gone or was
  replaced.
-/
def needsMcpHint
    (setup : Setup)
    (exe : Exe)
    (early : Bool)
    (last : AttemptError) : Bool :=
  last.kind = some .protocol || !exe.present ||
    (early && exe.mtime ≠ setup.startupMtime)

/-
  The message of a failed round, with the hint or without.
-/
def failureMessage
    (setup : Setup)
    (exe : Exe)
    (early : Bool)
    (last : AttemptError) : String :=
  if needsMcpHint setup exe early last then
    "ferrex daemon unavailable: " ++ last.message ++ "; " ++
      mcpHint
  else
    "ferrex daemon unavailable: " ++ last.message

/- The requests in flight are answered with errors. -/
def failPending
    (s : Session Line Value)
    (message : String) : Session Line Value :=
  s.answer
    (s.tracker.takeInFlight.1.setLink .down,
      s.tracker.takeInFlight.2) message

/- The round is over and no daemon was reached. -/
def roundFailed
    (s : Session Line Value)
    (message : String) : Session Line Value :=
  if s.tracker.initialised then
    { s.failPending message with
      queue := []
      phase := .disconnected }
  else
    s.exit 1

/- The end of a failed attempt in `run_round`. -/
def attemptFailed
    (setup : Setup)
    (s : Session Line Value)
    (after : Option AfterHello)
    (attempts : Nat)
    (early : Bool)
    (exe : Exe)
    (e : AttemptError) : Session Line Value :=
  if !e.retryable || maxAttempts ≤ attempts then
    match after with
    | none => s.exit 1
    | some _ =>
        s.roundFailed
          (failureMessage setup exe
            (early || e.childExitedEarly) e)
  else
    s.at (.round after attempts (early || e.childExitedEarly)
      .backoff)

/- The generation that an attempt is to re-send. -/
def resends
    (s : Session Line Value)
    (after : Option AfterHello) : Option Nat :=
  if after = some .replayForward ∨ after = some .resendKept then
    s.tracker.keptFirst.map KeptRequest.generation
  else
    none

/- The client is told of another daemon. -/
def announceKey
    (s : Session Line Value)
    (key : String) : Session Line Value :=
  { s with
    lastKey := key
    log :=
      if s.initialisedAtLoss && key ≠ s.lastKey then
        s.log ++ [.listChanged]
      else
        s.log }

/-
  The answer to the kept request goes straight to the
  client.
-/
def forwardResponse
    (codec : Codec Line Value)
    (s : Session Line Value)
    (line : Line) : Session Line Value :=
  (s.onDaemonLine codec line).record (.forwarded s.conn line)

/- The main task has a connection, and the pump starts. -/
def connected (s : Session Line Value) : Session Line Value :=
  { s with
    tracker := s.tracker.setLink .up
    pump := .reading
    phase := .flush }

/- The response of a re-sent `initialize`, if there is one. -/
def respond
    (codec : Codec Line Value)
    (s : Session Line Value)
    (response : Option Line) : Session Line Value :=
  match response with
  | some line => s.forwardResponse codec line
  | none => s

/- An answer to come is noted for the next loss. -/
def keepPending
    (s : Session Line Value)
    (after : AfterHello)
    (attempts : Nat) : Session Line Value :=
  if after = .resendKept then
    { s with
      pending := s.tracker.keptFirst.map
        (fun kept => ⟨kept.generation, attempts⟩) }
  else
    s

/- The end of a round that succeeds. -/
def adopt
    (codec : Codec Line Value)
    (s : Session Line Value)
    (after : Option AfterHello)
    (attempts : Nat)
    (key : String)
    (response : Option Line) : Session Line Value :=
  match after with
  | none => { s with lastKey := key }.connected
  | some after =>
      (((s.announceKey key).respond codec response).keepPending
        after attempts).connected

/- An attempt reads a line. -/
def hear
    (s : Session Line Value)
    (line : Line) : Session Line Value :=
  s.record (.answered s.conn line)

/- From here on the replay has read the cache. -/
def replaying (s : Session Line Value) : Session Line Value :=
  s.tracking s.tracker.markReplayStarted

/-
  An attempt is connected: the cached handshake is replayed,
  the kept request is re-sent, or nothing is left to do.
-/
def afterHello
    (setup : Setup)
    (codec : Codec Line Value)
    (s : Session Line Value)
    (after : Option AfterHello)
    (attempts : Nat)
    (early : Bool)
    (key : String)
    (exe : Exe) : Session Line Value :=
  match after with
  | some .replayDrop =>
      match s.tracker.cachedInitialize with
      | none =>
          s.replaying.attemptFailed setup after attempts early exe
            (.fatal "no cached initialize to replay")
      | some line =>
          match requestId codec line.line with
          | none =>
              s.replaying.attemptFailed setup after attempts early
                exe (.fatal "cached initialize has no id")
          | some id =>
              (s.replaying.write .replay line).at
                (.round after attempts early
                  (.replayInitialize key id
                    s.tracker.cachedInitialized))
  | some .replayForward =>
      match s.tracker.keptFirst with
      | none =>
          s.attemptFailed setup after attempts early exe
            (.fatal "no kept first request to re-send")
      | some kept =>
          (s.write .resend kept.line).at
            (.round after attempts early
              (.resendInitialize key kept.id))
  | some .resendKept =>
      match s.tracker.keptFirst with
      | none =>
          s.attemptFailed setup after attempts early exe
            (.fatal "no kept first request to re-send")
      | some kept =>
          (s.write .resend kept.line).at
            (.round after attempts early (.resend key))
  | some .nothing => s.adopt codec after attempts key none
  | none => s.adopt codec after attempts key none

end Session

/- How an attempt fails. -/
inductive Failure where
| resolve (message : String)
| connect (e : AttemptError)
| write (text : String)
| read (text : String)
| closed
| timeout

namespace Stage

/- What a stage waits for, in the texts of its errors. -/
def what : Stage Line Value → String
| .response _ _ _ => "replayed initialize"
| _ => "re-sent initialize"

/- The write that an attempt waits for. -/
def writing : Stage Line Value → Bool
| .replayInitialize _ _ _ => true
| .replayInitialized _ => true
| .resendInitialize _ _ => true
| .resend _ => true
| _ => false

/- The response that an attempt waits for. -/
def awaited : Stage Line Value → Option Value
| .response _ id _ => some id
| .resendResponse _ id => some id
| _ => none

/- The attempt is about to connect. -/
def connecting : Stage Line Value → Bool
| .connect => true
| _ => false

/- The error of an attempt that fails at a stage. -/
def error
    (setup : Setup)
    (stage : Stage Line Value) : Failure → Option AttemptError
| .resolve message =>
    if stage.connecting then some (.ofRetryable message) else none
| .connect e => if stage.connecting then some e else none
| .write text =>
    if stage.writing then
      some (.ofRetryable ("write to daemon failed: " ++ text))
    else
      none
| .read text =>
    if stage.awaited.isSome then
      some (.ofRetryable ("read from daemon failed: " ++ text))
    else
      none
| .closed =>
    if stage.awaited.isSome then
      some (.ofRetryable
        ("daemon closed the connection before answering the " ++
          stage.what))
    else
      none
| .timeout =>
    if stage.awaited.isSome then
      some (.fatal ("daemon did not answer the " ++ stage.what ++
        " within " ++ setup.replayTimeout))
    else
      none

end Stage

------------------------------------------------------------
-- Steps
------------------------------------------------------------

/-
  `begin` ends a backoff, `written` and `writeFailed` a write
  of the main task, `answer` is a line that an attempt reads,
  `lost` the signal of the pump, and `step` the next call of
  the main task.  `read`, `cut`, `credit` and `pump` are those
  of the pump.
-/
inductive Event (Line : Type) where
| client (line : Line)
| eof
| begin
| connected (key : String) (exe : Exe)
| failed (f : Failure) (exe : Exe)
| answer (line : Line) (exe : Exe)
| written
| writeFailed
| lost
| step
| drained
| read (line : Line)
| cut
| credit (free : Bool)
| pump
| stdoutFailed

namespace Session

section Next

variable (setup : Setup)
variable (codec : Codec Line Value)

/- A step of the pump. -/
def pumpNext
    (s : Session Line Value) :
    Event Line → Option (Session Line Value)
| .read line =>
    match s.pump with
    | .reading =>
        some ((({ s with held := some line }).record
          (.read s.conn line)).pumping .tryAcquire)
    | _ => none
-- The end of the stream, a line that it cuts short, or an
-- error.
| .cut =>
    match s.pump with
    | .reading => some (s.pumping .ended)
    | _ => none
| .credit free =>
    match s.pump with
    | .tryAcquire =>
        some (s.pumping (if free then .takeHeld else .parked))
    | .parked => if free then some (s.pumping .takeHeld) else none
    | _ => none
| .pump =>
    match s.pump with
    | .takeHeld =>
        match s.held with
        | some line =>
            some ({ s with held := none }.pumping (.show line))
        | none => some (s.pumping .ended)
    | .show line =>
        some (((s.onDaemonLine codec line).record
          (.shown s.conn line)).pumping (.send line))
    | .send line =>
        some ((s.record (.queued s.conn line)).pumping .check)
    | .check =>
        some (s.pumping
          (if s.tracker.hasInFlight then .reading else .notify))
    | .notify =>
        some ({ s with notified := true }.pumping .reading)
    | .ended => some (s.pumping .done)
    | _ => none
| _ => none

/- A step of an attempt. -/
def roundNext
    (s : Session Line Value)
    (after : Option AfterHello)
    (attempts : Nat)
    (early : Bool)
    (stage : Stage Line Value) :
    Event Line → Option (Session Line Value)
| .client line => some (s.waitLine codec line)
| .eof => some (s.exit 0)
| .stdoutFailed => some (s.at .exited)
| .begin =>
    match stage with
    | .backoff =>
        some ((s.record (.attempt (s.resends after))).at
          (.round after (attempts + 1) early .connect))
    | _ => none
| .connected key exe =>
    match stage with
    | .connect =>
        some ({ s with conn := s.conn + 1 }.afterHello setup codec
          after attempts early key exe)
    | _ => none
| .failed f exe =>
    (stage.error setup f).map
      (s.attemptFailed setup after attempts early exe)
| .written =>
    match stage with
    | .replayInitialize key id initialized =>
        some (s.at (.round after attempts early
          (.response key id initialized)))
    | .replayInitialized key =>
        some (s.adopt codec after attempts key none)
    | .resendInitialize key id =>
        some (s.at (.round after attempts early
          (.resendResponse key id)))
    | .resend key => some (s.adopt codec after attempts key none)
    | _ => none
| .answer line exe =>
    match stage with
    | .response key id initialized =>
        match responseOutcome codec line id with
        | none => some (s.hear line)
        | some .error =>
            some ((s.hear line).attemptFailed setup after attempts
              early exe
              (.ofRetryable ("daemon answered the replayed " ++
                "initialize with an error")))
        | some .success =>
            match initialized with
            | some initialized =>
                some (((s.hear line).write .replay initialized).at
                  (.round after attempts early
                    (.replayInitialized key)))
            | none =>
                some ((s.hear line).adopt codec after attempts key
                  none)
    | .resendResponse key id =>
        match responseOutcome codec line id with
        | none => some (s.hear line)
        | some _ =>
            some ((s.hear line).adopt codec after attempts key
              (some line))
    | _ => none
| _ => none

/- A step of the main task outside of a round. -/
def mainNext
    (s : Session Line Value)
    (e : Event Line) : Option (Session Line Value) :=
  match s.phase, e with
  | .round after attempts early stage, e =>
      s.roundNext setup codec after attempts early stage e
  -- `flush_queue`
  | .flush, .step =>
      match s.queue with
      | [] => some (s.at .forward)
      | line :: queue =>
          some (({ s with queue := queue }.write .client line).at
            .flushing)
  | .flushing, .written => some (s.at .flush)
  | .flushing, .writeFailed => some (s.at .loss)
  -- `forward`
  | .forward, .client line => some (s.forwardLine codec line)
  | .forward, .eof => some (s.at .drain)
  | .forward, .lost =>
      match s.pump with
      | .done => some (s.at .loss)
      | _ => none
  | .forwarding, .written => some (s.at .forward)
  | .forwarding, .writeFailed => some (s.at .loss)
  -- `drain`: the waiter is created before the check.
  | .drain, .step =>
      some ({ s with notified := false }.at .drainCheck)
  | .drainCheck, .step =>
      if s.tracker.hasInFlight then
        some (s.at .drainBlocked)
      else
        some (s.exit 0)
  | .drainBlocked, .step =>
      if s.notified then some (s.at .drain) else none
  -- The daemon is lost, stdout stalls, or the time is up.
  | .drain, .drained => some (s.exit 0)
  | .drainBlocked, .drained => some (s.exit 0)
  -- `on_loss`
  | .loss, .step =>
      if s.pump.joinable then some (s.onLoss codec) else none
  -- `await_request`
  | .disconnected, .client line => some (s.awaitLine codec line)
  | .disconnected, .eof => some (s.exit 0)
  -- The writer thread exits the process.
  | .exited, _ => none
  | _, .stdoutFailed => some (s.at .exited)
  | _, _ => none

/- A step of the main loop or of the pump. -/
def next
    (s : Session Line Value)
    (e : Event Line) : Option (Session Line Value) :=
  match e with
  | .read _ => s.pumpNext codec e
  | .cut => s.pumpNext codec e
  | .credit _ => s.pumpNext codec e
  | .pump => s.pumpNext codec e
  | _ => s.mainNext setup codec e

end Next

/- A proxy before its first connection. -/
def start : Session Line Value where
  tracker := .default
  queue := []
  held := none
  pump := .stopped
  notified := false
  initialisedAtLoss := false
  pending := none
  lastKey := ""
  phase := .round none 0 false .backoff
  conn := 0
  received := 0
  log := []

end Session

/- A session, whatever the client and the daemons do. -/
def machine
    (setup : Setup)
    (codec : Codec Line Value) :
    Machine (Session Line Value) (Event Line) :=
  .ofNext (fun s => s = .start) (Session.next setup codec)

/- A computed run to a state that passes a test. -/
theorem run_of_any
    (setup : Setup)
    (codec : Codec Line Value)
    (es : List (Event Line))
    (test : Session Line Value → Bool)
    (h :
      (es.foldlM (Session.next setup codec) .start).any test =
        true) :
    ∃ s, (machine setup codec).Reachable s ∧ test s = true := by
  rcases Machine.Run.of_any (fun s => s = .start) .start es test
    h with ⟨s, hRun, hTest⟩
  exact ⟨s, ⟨_, es, rfl, hRun⟩, hTest⟩

/- Lines by their members, with strings for ids. -/
def Codec.members : Codec (Envelope String) String where
  parse := some
  idKey id := "\"" ++ id ++ "\""
  sameId a b := a = b
  sameId_of_idKey a b h := by
    rw [String.append_left_inj, String.append_right_inj] at h
    exact decide_eq_true h

namespace Envelope

/- A request of the example. -/
def call (id method : String) : Envelope String :=
  ⟨some id, some method, false, false⟩

/- The answer to such a request. -/
def answer (id : String) : Envelope String :=
  ⟨some id, none, true, false⟩

end Envelope

/- The proxy of the example. -/
def Setup.sample : Setup := ⟨none, "30s"⟩

end Proxy

end Ferrex
