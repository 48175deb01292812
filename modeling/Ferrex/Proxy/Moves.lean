import Ferrex.Proxy.Loop

/-
  What a step of a proxy can do.

  Main declarations:
    * `Hop`, `Broken`, `Adopted`, `PumpMove`, `MainMove`
    * `Session.pumpMove_of_next`, `Session.mainMove_of_next`
    * `Session.next_eq_some`, `invariant_of_reachable`
-/

------------------------------------------------------------
-- Steps of the Main Task
------------------------------------------------------------

namespace Ferrex

namespace Proxy

open Daemon.Spawn (AttemptError)

variable {Line Value : Type}

/- The main task goes on, and nothing else changes. -/
inductive Hop
    (s : Session Line Value) :
    Event Line → Phase Line Value → Prop
| flushed
    (hPhase : s.phase = .flush)
    (hQueue : s.queue = []) :
    Hop s .step .forward
| flushing
    (hPhase : s.phase = .flushing) :
    Hop s .written .flush
| forwarding
    (hPhase : s.phase = .forwarding) :
    Hop s .written .forward
| flushFailed
    (hPhase : s.phase = .flushing) :
    Hop s .writeFailed .loss
| forwardFailed
    (hPhase : s.phase = .forwarding) :
    Hop s .writeFailed .loss
| lost
    (hPhase : s.phase = .forward)
    (hPump : s.pump = .done) :
    Hop s .lost .loss
| eof
    (hPhase : s.phase = .forward) :
    Hop s .eof .drain
| blocked
    (hPhase : s.phase = .drainCheck)
    (hInFlight : s.tracker.hasInFlight = true) :
    Hop s .step .drainBlocked
| woken
    (hPhase : s.phase = .drainBlocked)
    (hNotified : s.notified = true) :
    Hop s .step .drain
| replayed
    (after : Option AfterHello)
    (attempts : Nat)
    (early : Bool)
    (key : String)
    (id : Value)
    (initialized : Option (Numbered Line))
    (hPhase :
      s.phase = .round after attempts early
        (.replayInitialize key id initialized)) :
    Hop s .written (.round after attempts early
      (.response key id initialized))
| resent
    (after : Option AfterHello)
    (attempts : Nat)
    (early : Bool)
    (key : String)
    (id : Value)
    (hPhase :
      s.phase = .round after attempts early
        (.resendInitialize key id)) :
    Hop s .written (.round after attempts early
      (.resendResponse key id))
| stdoutFailed : Hop s .stdoutFailed .exited

/- The proxy exits because its client has closed stdin. -/
inductive Closes (s : Session Line Value) : Event Line → Prop
| round
    (after : Option AfterHello)
    (attempts : Nat)
    (early : Bool)
    (stage : Stage Line Value)
    (hPhase : s.phase = .round after attempts early stage) :
    Closes s .eof
| disconnected
    (hPhase : s.phase = .disconnected) :
    Closes s .eof
| answered
    (hPhase : s.phase = .drainCheck)
    (hInFlight : s.tracker.hasInFlight = false) :
    Closes s .step
| drained
    (hPhase : s.phase = .drain ∨ s.phase = .drainBlocked) :
    Closes s .drained

/- The state in which an attempt ends, at one of its stages. -/
inductive Broken
    (s : Session Line Value)
    (after : Option AfterHello)
    (stage : Stage Line Value) : Session Line Value → Prop
| failed : Broken s after stage s
| hello
    (hStage : stage = .connect) :
    Broken s after stage { s with conn := s.conn + 1 }
| replaying
    (hStage : stage = .connect)
    (hAfter : after = some .replayDrop) :
    Broken s after stage
      { s with conn := s.conn + 1 }.replaying
| answered
    (line : Line)
    (hStage : stage.awaited.isSome = true) :
    Broken s after stage (s.hear line)

/- The state in which a connection is adopted, and its key. -/
inductive Adopted
    (codec : Codec Line Value)
    (s : Session Line Value)
    (after : Option AfterHello) :
    Stage Line Value → String → Option Line →
      Session Line Value → Prop
| hello (key : String)
    (hAfter : after = none ∨ after = some .nothing) :
    Adopted codec s after .connect key none
      { s with conn := s.conn + 1 }
| replayed (key : String) :
    Adopted codec s after (.replayInitialized key) key none s
| answered (key : String) (id : Value) (line : Line)
    (hOutcome :
      responseOutcome codec line id = some .success) :
    Adopted codec s after (.response key id none) key none
      (s.hear line)
| resent (key : String) :
    Adopted codec s after (.resend key) key none s
| forwarded (key : String) (id : Value) (line : Line)
    (outcome : Outcome)
    (hOutcome :
      responseOutcome codec line id = some outcome) :
    Adopted codec s after (.resendResponse key id) key
      (some line) (s.hear line)

/-
  What an attempt that fails leads to: an exit, the end of the
  round for an initialised session, or another attempt.
-/
inductive Failed
    (u : Session Line Value)
    (after : Option AfterHello)
    (attempts : Nat) : Session Line Value → Prop
| gaveUp
    (hRefused : after = none ∨ u.tracker.initialised = false) :
    Failed u after attempts (u.exit 1)
| pending
    (message : String)
    (hAfter : after ≠ none)
    (hInitialised : u.tracker.initialised = true) :
    Failed u after attempts
      { u.failPending message with
        queue := []
        phase := .disconnected }
| retry
    (early : Bool)
    (hLeft : attempts < maxAttempts) :
    Failed u after attempts
      (u.at (.round after attempts early .backoff))

/- What a loss leads to, once the held line has been taken. -/
inductive Lost
    (codec : Codec Line Value)
    (u : Session Line Value) : Session Line Value → Prop
| wait
    (hKept : u.tracker.keptInFlight codec = none) :
    Lost codec u
      ((u.linkDown.answer u.linkDown.tracker.takeInFlight
        restartMessage).at .disconnected)
| exit
    (kept : KeptRequest Line Value)
    (hKept : u.tracker.keptInFlight codec = some kept)
    (hUsed : maxAttempts ≤ u.attemptsUsed codec) :
    Lost codec u
      ((u.linkDown.answer
        (u.linkDown.tracker.takeInFlightExcept codec kept.id)
        restartMessage).exit 1)
| now
    (kept : KeptRequest Line Value)
    (hKept : u.tracker.keptInFlight codec = some kept)
    (hUsed : u.attemptsUsed codec < maxAttempts) :
    Lost codec u
      ((u.linkDown.answer
        (u.linkDown.tracker.takeInFlightExcept codec kept.id)
        restartMessage).reconnectNow kept
          (u.attemptsUsed codec))

/- All that the main loop can do in a step. -/
inductive MainMove
    (codec : Codec Line Value)
    (s : Session Line Value) :
    Event Line → Session Line Value → Prop
| hop (e : Event Line) (phase : Phase Line Value)
    (hHop : Hop s e phase) :
    MainMove codec s e (s.at phase)
| close (e : Event Line) (hCloses : Closes s e) :
    MainMove codec s e (s.exit 0)
| wait (line : Line)
    (after : Option AfterHello)
    (attempts : Nat)
    (early : Bool)
    (stage : Stage Line Value)
    (hPhase : s.phase = .round after attempts early stage) :
    MainMove codec s (.client line) (s.waitLine codec line)
| begin
    (after : Option AfterHello)
    (attempts : Nat)
    (early : Bool)
    (hPhase : s.phase = .round after attempts early .backoff) :
    MainMove codec s .begin
      ((s.record (.attempt (s.resends after))).at
        (.round after (attempts + 1) early .connect))
| replay (key : String) (exe : Exe)
    (attempts : Nat)
    (early : Bool)
    (line : Numbered Line)
    (id : Value)
    (hPhase :
      s.phase = .round (some .replayDrop) attempts early .connect)
    (hCached : s.tracker.cachedInitialize = some line)
    (hId : requestId codec line.line = some id) :
    MainMove codec s (.connected key exe)
      (({ s with conn := s.conn + 1 }.replaying.write .replay
        line).at
          (.round (some .replayDrop) attempts early
            (.replayInitialize key id
              s.tracker.cachedInitialized)))
| resend (key : String) (exe : Exe)
    (after : AfterHello)
    (attempts : Nat)
    (early : Bool)
    (stage : Stage Line Value)
    (kept : KeptRequest Line Value)
    (hPhase :
      s.phase = .round (some after) attempts early .connect)
    (hKept : s.tracker.keptFirst = some kept)
    (hStage :
      (after = .replayForward ∧
        stage = .resendInitialize key kept.id) ∨
        (after = .resendKept ∧ stage = .resend key)) :
    MainMove codec s (.connected key exe)
      (({ s with conn := s.conn + 1 }.write .resend kept.line).at
        (.round (some after) attempts early stage))
| skip (line : Line) (exe : Exe)
    (after : Option AfterHello)
    (attempts : Nat)
    (early : Bool)
    (stage : Stage Line Value)
    (id : Value)
    (hPhase : s.phase = .round after attempts early stage)
    (hStage : stage.awaited = some id)
    (hOutcome : responseOutcome codec line id = none) :
    MainMove codec s (.answer line exe) (s.hear line)
| replayInitialized (line : Line) (exe : Exe)
    (after : Option AfterHello)
    (attempts : Nat)
    (early : Bool)
    (key : String)
    (id : Value)
    (initialized : Numbered Line)
    (hPhase :
      s.phase = .round after attempts early
        (.response key id (some initialized)))
    (hOutcome :
      responseOutcome codec line id = some .success) :
    MainMove codec s (.answer line exe)
      (((s.hear line).write .replay initialized).at
        (.round after attempts early (.replayInitialized key)))
| fail (e : Event Line)
    (after : Option AfterHello)
    (attempts : Nat)
    (early : Bool)
    (stage : Stage Line Value)
    (u t : Session Line Value)
    (hPhase : s.phase = .round after attempts early stage)
    (hStage : stage ≠ .backoff)
    (hBroken : Broken s after stage u)
    (hFailed : Failed u after attempts t) :
    MainMove codec s e t
| adopt (e : Event Line)
    (after : Option AfterHello)
    (attempts : Nat)
    (early : Bool)
    (stage : Stage Line Value)
    (key : String)
    (response : Option Line)
    (u : Session Line Value)
    (hPhase : s.phase = .round after attempts early stage)
    (hAdopted : Adopted codec s after stage key response u) :
    MainMove codec s e
      (u.adopt codec after attempts key response)
| flushLine (line : Numbered Line)
    (queue : List (Numbered Line))
    (hPhase : s.phase = .flush)
    (hQueue : s.queue = line :: queue) :
    MainMove codec s .step
      (({ s with queue := queue }.write .client line).at .flushing)
| forwardLine (line : Line)
    (hPhase : s.phase = .forward) :
    MainMove codec s (.client line) (s.forwardLine codec line)
| waiter
    (hPhase : s.phase = .drain) :
    MainMove codec s .step
      ({ s with notified := false }.at .drainCheck)
| loss (t : Session Line Value)
    (hPhase : s.phase = .loss)
    (hPump : s.pump.joinable = true)
    (hLost : Lost codec (s.takeHeld codec) t) :
    MainMove codec s .step t
| awaitLine (line : Line)
    (hPhase : s.phase = .disconnected) :
    MainMove codec s (.client line) (s.awaitLine codec line)

------------------------------------------------------------
-- Steps of the Pump
------------------------------------------------------------

/- The pump goes on, and nothing else changes. -/
inductive Turn (s : Session Line Value) : Pump Line → Prop
| cut (hPump : s.pump = .reading) : Turn s .ended
| free
    (hPump : s.pump = .tryAcquire ∨ s.pump = .parked) :
    Turn s .takeHeld
| full (hPump : s.pump = .tryAcquire) : Turn s .parked
| taken
    (hPump : s.pump = .takeHeld)
    (hHeld : s.held = none) :
    Turn s .ended
| inFlight
    (hPump : s.pump = .check)
    (hInFlight : s.tracker.hasInFlight = true) :
    Turn s .reading
| answered
    (hPump : s.pump = .check)
    (hInFlight : s.tracker.hasInFlight = false) :
    Turn s .notify
| ended (hPump : s.pump = .ended) : Turn s .done

/- All that the pump can do in one. -/
inductive PumpMove
    (codec : Codec Line Value)
    (s : Session Line Value) :
    Event Line → Session Line Value → Prop
| turn (e : Event Line) (pump : Pump Line) (hTurn : Turn s pump) :
    PumpMove codec s e (s.pumping pump)
| read (line : Line)
    (hPump : s.pump = .reading) :
    PumpMove codec s (.read line)
      ((({ s with held := some line }).record
        (.read s.conn line)).pumping .tryAcquire)
| takeHeld (line : Line)
    (hPump : s.pump = .takeHeld)
    (hHeld : s.held = some line) :
    PumpMove codec s .pump
      ({ s with held := none }.pumping (.show line))
| show (line : Line)
    (hPump : s.pump = .show line) :
    PumpMove codec s .pump
      (((s.onDaemonLine codec line).record
        (.shown s.conn line)).pumping (.send line))
| send (line : Line)
    (hPump : s.pump = .send line) :
    PumpMove codec s .pump
      ((s.record (.queued s.conn line)).pumping .check)
| notify
    (hPump : s.pump = .notify) :
    PumpMove codec s .pump
      ({ s with notified := true }.pumping .reading)

------------------------------------------------------------
-- Inversion
------------------------------------------------------------

namespace Session

variable {setup : Setup} {codec : Codec Line Value}
variable {s t : Session Line Value} {e : Event Line}

/- The pump's steps are among these. -/
theorem pumpMove_of_next
    (hNext : s.pumpNext codec e = some t) :
    PumpMove codec s e t := by
  cases e <;> cases hPump : s.pump <;>
    simp only [pumpNext, hPump, Option.some.injEq,
      reduceCtorEq] at hNext
  case read.reading line =>
    subst hNext
    exact .read line hPump
  case cut.reading =>
    subst hNext
    exact .turn _ _ (.cut hPump)
  case credit.tryAcquire free =>
    subst hNext
    cases free with
    | true => exact .turn _ _ (.free (Or.inl hPump))
    | false => exact .turn _ _ (.full hPump)
  case credit.parked free =>
    split at hNext <;> cases hNext
    exact .turn _ _ (.free (Or.inr hPump))
  case pump.takeHeld =>
    split at hNext <;> cases hNext
    · exact .takeHeld _ hPump ‹_›
    · exact .turn _ _ (.taken hPump ‹_›)
  case pump.show line =>
    subst hNext
    exact .show line hPump
  case pump.send line =>
    subst hNext
    exact .send line hPump
  case pump.check =>
    subst hNext
    cases hInFlight : s.tracker.hasInFlight with
    | true => exact .turn _ _ (.inFlight hPump hInFlight)
    | false => exact .turn _ _ (.answered hPump hInFlight)
  case pump.notify =>
    subst hNext
    exact .notify hPump
  case pump.ended =>
    subst hNext
    exact .turn _ _ (.ended hPump)

/- How an attempt fails. -/
theorem failed_attemptFailed
    (u : Session Line Value)
    (after : Option AfterHello)
    (attempts : Nat)
    (early : Bool)
    (exe : Exe)
    (error : AttemptError) :
    Failed u after attempts
      (u.attemptFailed setup after attempts early exe error) := by
  unfold attemptFailed
  split
  · cases after with
    | none => exact .gaveUp (Or.inl rfl)
    | some after =>
        simp only [roundFailed]
        split
        · exact .pending _ (by simp) ‹_›
        · rename_i hInitialised
          exact .gaveUp (Or.inr (eq_false_of_ne_true hInitialised))
  · rename_i hRetry
    simp only [Bool.or_eq_true, decide_eq_true_eq,
      not_or] at hRetry
    exact .retry _ (Nat.lt_of_not_le hRetry.2)

/-
  The loss of a connection is one of the two that are
  listed.
-/
theorem lost_onLoss (s : Session Line Value) :
    Lost codec (s.takeHeld codec) (s.onLoss codec) := by
  unfold onLoss onDaemonLoss
  have hSame :
      (s.takeHeld codec).linkDown.tracker.keptInFlight codec =
        (s.takeHeld codec).tracker.keptInFlight codec := rfl
  rw [hSame]
  split
  · exact .wait ‹_›
  · rename_i kept hKept
    by_cases hUsed :
      maxAttempts ≤ (s.takeHeld codec).attemptsUsed codec
    · unfold reconnectNow
      rw [if_pos hUsed]
      exact .exit kept hKept hUsed
    · exact .now kept hKept (Nat.lt_of_not_le hUsed)

section Round

variable {after : Option AfterHello}
variable {attempts : Nat} {early : Bool}
variable {stage : Stage Line Value}

/- After the hello the attempt goes on, or it is adopted. -/
theorem mainMove_of_afterHello
    {key : String} {exe : Exe}
    (hPhase : s.phase = .round after attempts early .connect) :
    MainMove codec s (.connected key exe)
      ({ s with conn := s.conn + 1 }.afterHello setup codec
        after attempts early key exe) := by
  have hFail :
      ∀ u error, Broken s after .connect u →
        MainMove codec s (.connected key exe)
          (u.attemptFailed setup after attempts early exe
            error) :=
    fun u error hBroken =>
      .fail _ _ _ _ _ u _ hPhase (by simp) hBroken
        (failed_attemptFailed _ _ _ _ _ _)
  unfold afterHello
  split
  · split
    · exact hFail _ _ (.replaying rfl rfl)
    · split
      · exact hFail _ _ (.replaying rfl rfl)
      · exact .replay _ _ _ _ _ _ hPhase ‹_› ‹_›
  · split
    · exact hFail _ _ (.hello rfl)
    · exact .resend _ _ _ _ _ _ _ hPhase ‹_›
        (Or.inl ⟨rfl, rfl⟩)
  · split
    · exact hFail _ _ (.hello rfl)
    · exact .resend _ _ _ _ _ _ _ hPhase ‹_›
        (Or.inr ⟨rfl, rfl⟩)
  · exact .adopt _ _ _ _ _ _ _ _ hPhase
      (.hello key (Or.inr rfl))
  · exact .adopt _ _ _ _ _ _ _ _ hPhase
      (.hello key (Or.inl rfl))

/-
  The answer to a kept request is adopted, or the attempt
  breaks.
-/
theorem mainMove_of_answer
    {line : Line} {exe : Exe}
    (hPhase : s.phase = .round after attempts early stage)
    (hNext :
      s.roundNext setup codec after attempts early stage
        (.answer line exe) = some t) :
    MainMove codec s (.answer line exe) t := by
  cases stage <;> simp only [roundNext, reduceCtorEq] at hNext
  case response key id initialized =>
    split at hNext
    · cases hNext
      exact .skip _ _ _ _ _ _ id hPhase rfl ‹_›
    · cases hNext
      exact .fail _ _ _ _ _ _ _ hPhase (by simp)
        (.answered line rfl) (failed_attemptFailed _ _ _ _ _ _)
    · split at hNext <;> cases hNext
      · exact .replayInitialized _ _ _ _ _ _ _ _ hPhase ‹_›
      · exact .adopt _ _ _ _ _ _ _ _ hPhase
          (.answered key id line ‹_›)
  case resendResponse key id =>
    split at hNext <;> cases hNext
    · exact .skip _ _ _ _ _ _ id hPhase rfl ‹_›
    · exact .adopt _ _ _ _ _ _ _ _ hPhase
        (.forwarded key id line _ ‹_›)

/- The steps of a round are moves. -/
theorem mainMove_of_roundNext
    (hPhase : s.phase = .round after attempts early stage)
    (hNext :
      s.roundNext setup codec after attempts early stage e =
        some t) :
    MainMove codec s e t := by
  cases e with
  | client line =>
      cases hNext
      exact .wait _ _ _ _ _ hPhase
  | eof =>
      cases hNext
      exact .close _ (.round _ _ _ _ hPhase)
  | stdoutFailed =>
      cases hNext
      exact .hop _ _ .stdoutFailed
  | begin =>
      cases stage <;> cases hNext
      exact .begin _ _ _ hPhase
  | connected key exe =>
      cases stage <;> cases hNext
      exact mainMove_of_afterHello hPhase
  | failed f exe =>
      simp only [roundNext, Option.map_eq_some_iff] at hNext
      rcases hNext with ⟨error, hError, rfl⟩
      refine .fail _ _ _ _ _ _ _ hPhase (fun h => ?_) .failed
        (failed_attemptFailed _ _ _ _ _ _)
      rw [h] at hError
      cases f <;> cases hError
  | written =>
      cases stage <;> cases hNext
      case replayInitialize.refl =>
        exact .hop _ _ (.replayed _ _ _ _ _ _ hPhase)
      case replayInitialized.refl =>
        exact .adopt _ _ _ _ _ _ _ _ hPhase (.replayed _)
      case resendInitialize.refl =>
        exact .hop _ _ (.resent _ _ _ _ _ hPhase)
      case resend.refl =>
        exact .adopt _ _ _ _ _ _ _ _ hPhase (.resent _)
  | answer line exe => exact mainMove_of_answer hPhase hNext
  | _ => cases hNext

end Round

/- All steps of the main loop are moves. -/
theorem mainMove_of_next
    (hNext : s.mainNext setup codec e = some t) :
    MainMove codec s e t := by
  cases hPhase : s.phase
  case round after attempts early stage =>
    unfold mainNext at hNext
    rw [hPhase] at hNext
    exact mainMove_of_roundNext hPhase hNext
  all_goals
    cases e <;>
      simp only [mainNext, hPhase, Option.some.injEq,
        reduceCtorEq] at hNext
  case flush.step =>
    split at hNext <;> cases hNext
    · exact .hop _ _ (.flushed hPhase ‹_›)
    · exact .flushLine _ _ hPhase ‹_›
  case flushing.written =>
    subst hNext
    exact .hop _ _ (.flushing hPhase)
  case flushing.writeFailed =>
    subst hNext
    exact .hop _ _ (.flushFailed hPhase)
  case forward.client line =>
    subst hNext
    exact .forwardLine line hPhase
  case forward.eof =>
    subst hNext
    exact .hop _ _ (.eof hPhase)
  case forward.lost =>
    split at hNext <;> cases hNext
    exact .hop _ _ (.lost hPhase ‹_›)
  case forwarding.written =>
    subst hNext
    exact .hop _ _ (.forwarding hPhase)
  case forwarding.writeFailed =>
    subst hNext
    exact .hop _ _ (.forwardFailed hPhase)
  case drain.step =>
    subst hNext
    exact .waiter hPhase
  case drain.drained =>
    subst hNext
    exact .close _ (.drained (Or.inl hPhase))
  case drainCheck.step =>
    cases hInFlight : s.tracker.hasInFlight <;>
      rw [hInFlight] at hNext <;> cases hNext
    · exact .close _ (.answered hPhase hInFlight)
    · exact .hop _ _ (.blocked hPhase hInFlight)
  case drainBlocked.step =>
    split at hNext <;> cases hNext
    exact .hop _ _ (.woken hPhase ‹_›)
  case drainBlocked.drained =>
    subst hNext
    exact .close _ (.drained (Or.inr hPhase))
  case loss.step =>
    split at hNext <;> cases hNext
    exact .loss _ hPhase ‹_› (lost_onLoss s)
  case disconnected.client line =>
    subst hNext
    exact .awaitLine line hPhase
  case disconnected.eof =>
    subst hNext
    exact .close _ (.disconnected hPhase)
  all_goals
    subst hNext
    exact .hop _ _ .stdoutFailed

/- A step is one of the pump or of the main task. -/
theorem next_eq_some
    (hNext : s.next setup codec e = some t) :
    PumpMove codec s e t ∨ MainMove codec s e t := by
  unfold next at hNext
  split at hNext
  case h_5 => exact Or.inr (mainMove_of_next hNext)
  all_goals exact Or.inl (pumpMove_of_next hNext)

end Session

------------------------------------------------------------
-- What Rounds and Losses Change
------------------------------------------------------------

namespace Session

/-
  A connection that is adopted: a response of a re-sent
  `initialize` is shown and forwarded, the attempts for a kept
  request are remembered, and the link is up.
-/
theorem adopt_eq
    (codec : Codec Line Value)
    (u : Session Line Value)
    (after : Option AfterHello)
    (attempts : Nat)
    (key : String)
    (response : Option Line) :
    ∃ es tracker pending,
      u.adopt codec after attempts key response =
          { u with
            lastKey := key
            log := u.log ++ es
            tracker := tracker.setLink .up
            pending := pending
            pump := .reading
            phase := .flush } ∧
        (∀ e ∈ es,
          e = .listChanged ∨
            ∃ line, response = some line ∧ after ≠ none ∧
              e = .forwarded u.conn line) ∧
        ((tracker = u.tracker ∧
            (response = none ∨ after = none) ∧
            ∀ e ∈ es, e = .listChanged) ∨
          ∃ line, response = some line ∧ after ≠ none ∧
            tracker = u.tracker.onDaemonLine codec line ∧
            ∃ notices, es = notices ++ [.forwarded u.conn line] ∧
              ∀ e ∈ notices, e = .listChanged) ∧
        pending =
          (if after = some .resendKept then
            tracker.keptFirst.map
              (fun kept => ⟨kept.generation, attempts⟩)
          else
            u.pending) := by
  cases after with
  | none =>
      refine ⟨[], u.tracker, u.pending, ?_, by simp,
        Or.inl ⟨rfl, Or.inr rfl, by simp⟩, rfl⟩
      rw [List.append_nil]
      rfl
  | some after =>
      have hKey :
          ∃ es, u.announceKey key =
              { u with lastKey := key, log := u.log ++ es } ∧
            ∀ e ∈ es, e = .listChanged := by
        unfold announceKey
        split
        · exact ⟨[.listChanged], rfl, by simp⟩
        · refine ⟨[], ?_, by simp⟩
          rw [List.append_nil]
      rcases hKey with ⟨es, hKey, hEs⟩
      have hPending :
          ∀ v : Session Line Value,
            v.keepPending after attempts =
              { v with
                pending :=
                  if some after = some .resendKept then
                    v.tracker.keptFirst.map
                      (fun kept => ⟨kept.generation, attempts⟩)
                  else
                    v.pending } := by
        intro v
        unfold keepPending
        simp only [Option.some.injEq]
        split <;> rfl
      unfold adopt
      simp only [hKey, hPending]
      cases response with
      | none =>
          exact ⟨es, u.tracker, _, rfl,
            fun e he => Or.inl (hEs e he),
            Or.inl ⟨rfl, Or.inl rfl, hEs⟩, rfl⟩
      | some line =>
          refine ⟨es ++ [.forwarded u.conn line],
            u.tracker.onDaemonLine codec line, _, ?_, ?_,
            Or.inr ⟨line, rfl, by simp, rfl, es, rfl, hEs⟩, rfl⟩
          · rw [← List.append_assoc]
            rfl
          · intro e he
            rcases List.mem_append.mp he with he | he
            · exact Or.inl (hEs e he)
            · exact Or.inr ⟨line, rfl, by simp,
                List.mem_singleton.mp he⟩

/- What the aborted pump had in hand is shown and queued. -/
theorem takeHeld_eq
    (codec : Codec Line Value)
    (s : Session Line Value) :
    ∃ es tracker,
      s.takeHeld codec =
          { s with
            held := none
            tracker := tracker
            log := s.log ++ es } ∧
        ((s.held = none ∧ es = [] ∧ tracker = s.tracker) ∨
          ∃ line, s.held = some line ∧
            es = [.shown s.conn line, .queued s.conn line] ∧
            tracker = s.tracker.onDaemonLine codec line) := by
  unfold takeHeld
  split
  · rename_i line hHeld
    refine ⟨_, _, ?_, Or.inr ⟨line, hHeld, rfl, rfl⟩⟩
    simp only [record, onDaemonLine, tracking,
      List.append_assoc]
    rfl
  · rename_i hHeld
    refine ⟨[], s.tracker, ?_, Or.inl ⟨hHeld, rfl, rfl⟩⟩
    rw [List.append_nil, ← hHeld]

/- With an attempt left, the round begins at once. -/
theorem reconnectNow_eq
    {used : Nat}
    (u : Session Line Value)
    (kept : KeptRequest Line Value)
    (hUsed : used < maxAttempts) :
    u.reconnectNow kept used =
      { u with
        tracker := u.tracker.setLink .reconnecting
        phase :=
          .round
            (some (if kept.isInitialize then
              .replayForward
            else
              .resendKept)) used false .backoff } := by
  unfold reconnectNow
  rw [if_neg (Nat.not_le.mpr hUsed)]
  rfl

end Session

------------------------------------------------------------
-- The History Grows
------------------------------------------------------------

namespace Session

variable {codec : Codec Line Value}
variable {s t u : Session Line Value} {e : Event Line}

/- The log is only added to. -/
theorem log_takeHeld
    (codec : Codec Line Value)
    (s : Session Line Value) :
    s.log <+: (s.takeHeld codec).log := by
  rcases s.takeHeld_eq codec with ⟨es, _, hEq, _⟩
  rw [hEq]
  exact List.prefix_append _ _

/- By the pump too. -/
theorem log_pumpMove
    (hMove : PumpMove codec s e t) :
    s.log <+: t.log := by
  cases hMove with
  | read line _ | «show» line _ | send line _ =>
      exact List.prefix_append _ _
  | _ => exact List.prefix_refl _

/- The main loop only adds to the log. -/
theorem log_mainMove
    (hMove : MainMove codec s e t) :
    s.log <+: t.log := by
  cases hMove with
  | hop e phase _ | waiter _ => exact List.prefix_refl _
  | wait line _ _ _ _ _ =>
      unfold waitLine
      split <;> exact List.prefix_append _ _
  | replayInitialized line exe _ _ _ _ _ _ _ _ =>
      exact (List.prefix_append _ _).trans
        (List.prefix_append _ _)
  | fail e _ _ _ _ u t _ _ hBroken hFailed =>
      have hU : s.log <+: u.log := by
        cases hBroken with
        | answered line _ => exact List.prefix_append _ _
        | _ => exact List.prefix_refl _
      refine hU.trans ?_
      cases hFailed with
      | retry _ _ => exact List.prefix_refl _
      | _ => exact List.prefix_append _ _
  | adopt e after attempts _ _ key response u _ hAdopted =>
      have hU : s.log <+: u.log := by
        cases hAdopted with
        | answered | forwarded => exact List.prefix_append _ _
        | _ => exact List.prefix_refl _
      rcases u.adopt_eq codec after attempts key response with
        ⟨_, _, _, hEq, _⟩
      rw [hEq]
      exact hU.trans (List.prefix_append _ _)
  | forwardLine line _ =>
      exact (List.prefix_append _ _).trans
        (List.prefix_append _ _)
  | loss t _ _ hLost =>
      refine (log_takeHeld codec s).trans ?_
      cases hLost with
      | wait _ => exact List.prefix_append _ _
      | exit kept _ _ =>
          exact (List.prefix_append _ _).trans
            (List.prefix_append _ _)
      | now kept _ hUsed =>
          rw [reconnectNow_eq _ _ hUsed]
          exact List.prefix_append _ _
  | awaitLine line _ =>
      unfold awaitLine
      split <;> exact List.prefix_append _ _
  | _ => exact List.prefix_append _ _

end Session

/-
  The invariant rule for a proxy: what the pump and the main
  task preserve holds in every reachable state.
-/
theorem invariant_of_reachable
    {setup : Setup} {codec : Codec Line Value}
    {I : Session Line Value → Prop}
    (hStart : I .start)
    (hPump : ∀ s e t, I s → PumpMove codec s e t → I t)
    (hMain :
      ∀ s e t, I s → MainMove codec s e t → I t)
    {s : Session Line Value}
    (hReach : (machine setup codec).Reachable s) :
    I s := by
  rcases hReach with ⟨s₀, es, rfl, hRun⟩
  refine hRun.invariant (fun s e t hInv hNext => ?_) hStart
  rcases Session.next_eq_some hNext with hMove | hMove
  · exact hPump s e t hInv hMove
  · exact hMain s e t hInv hMove

/- The rule where a step starts from a reachable state. -/
theorem induction_of_reachable
    {setup : Setup} {codec : Codec Line Value}
    {I : Session Line Value → Prop}
    (hStart : I .start)
    (hPump :
      ∀ s e t, (machine setup codec).Reachable s → I s →
        PumpMove codec s e t → I t)
    (hMain :
      ∀ s e t, (machine setup codec).Reachable s → I s →
        MainMove codec s e t → I t)
    {s : Session Line Value}
    (hReach : (machine setup codec).Reachable s) :
    I s := by
  rcases hReach with ⟨s₀, es, rfl, hRun⟩
  induction hRun with
  | nil => exact hStart
  | @snoc s t es e hFirst hNext ih =>
      have hSource : (machine setup codec).Reachable s :=
        ⟨_, _, rfl, hFirst⟩
      rcases Session.next_eq_some hNext with hMove | hMove
      · exact hPump s e t hSource ih hMove
      · exact hMain s e t hSource ih hMove

end Proxy

end Ferrex
