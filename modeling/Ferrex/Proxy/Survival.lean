import Ferrex.Proxy.Delivery
import Ferrex.Proxy.Pump

/-
  What a session that is initialised survives: nothing but the
  end of its client's input, or a failed write to stdout,
  makes the proxy leave its loop, and nothing but the cached
  handshake is written to a daemon again.

  Main declarations:
    * `Phase.inLoop`, `Session.Settled`
    * `Session.Repeats`
    * `survives`
-/

------------------------------------------------------------
-- The Loop
------------------------------------------------------------

namespace Ferrex

namespace Proxy

variable {Line Value : Type}

/- The main task has not left the loop of `run`. -/
def Phase.inLoop : Phase Line Value → Bool
| .drain => false
| .drainCheck => false
| .drainBlocked => false
| .exited => false
| _ => true

namespace Session

variable {setup : Setup} {codec : Codec Line Value}
variable {s t u : Session Line Value} {e : Event Line}

/-
  No request is kept once the session is initialised, and it
  is not initialised at startup.
-/
structure Settled (s : Session Line Value) : Prop where
  kept :
    s.tracker.initialised = true → s.tracker.keptFirst = none
  startup :
    ∀ attempts early stage,
      s.phase = .round none attempts early stage →
        s.tracker.initialised = false

namespace Settled

/- An initialised session has no request to be kept. -/
theorem keptInFlight
    (hSettled : s.Settled)
    (hInitialised : s.tracker.initialised = true) :
    s.tracker.keptInFlight codec = none := by
  unfold Tracker.keptInFlight
  rw [hSettled.kept hInitialised]
  rfl

/- What neither shows nor receives a line. -/
theorem same
    (hSettled : s.Settled)
    (hInitialised :
      t.tracker.initialised = s.tracker.initialised)
    (hKept : t.tracker.keptFirst = s.tracker.keptFirst)
    (hPhase :
      ∀ attempts early stage,
        t.phase = .round none attempts early stage →
          ∃ attempts early stage,
            s.phase = .round none attempts early stage) :
    t.Settled where
  kept := by
    rw [hInitialised, hKept]
    exact hSettled.kept
  startup := by
    intro attempts early stage h
    rcases hPhase attempts early stage h with ⟨_, _, _, hOld⟩
    rw [hInitialised]
    exact hSettled.startup _ _ _ hOld

/-
  A line of the daemon may initialise the session, and drops
  the kept request then.
-/
theorem onDaemonLine
    {line : Line}
    (hSettled : s.Settled)
    (hPhase :
      ∀ attempts early stage,
        s.phase ≠ .round none attempts early stage) :
    (s.onDaemonLine codec line).Settled := by
  rcases Tracker.onDaemonLine_eq codec s.tracker line with
    ⟨_, initialised, kept, hEq, hWhich⟩
  unfold Session.onDaemonLine
  rw [hEq]
  constructor
  · intro hInitialised
    rcases hWhich with ⟨rfl, rfl⟩ | ⟨_, rfl⟩ | ⟨_, rfl⟩
    · exact hSettled.kept hInitialised
    · rfl
    · rfl
  · exact fun _ _ _ h => absurd h (hPhase _ _ _)

/- A line of the client does not initialise it. -/
theorem receive
    {line : Line}
    (hSettled : s.Settled) :
    (s.receive codec line).Settled := by
  rcases Tracker.onClientLine_eq codec s.tracker
    ⟨s.received, line⟩ with
    ⟨_, _, _, kept, _, hEq, _, _, hKept, _⟩
  have hTracker : (s.receive codec line).tracker = _ := hEq
  have hSame :
      (s.receive codec line).tracker.initialised =
        s.tracker.initialised := by
    rw [hTracker]
  have hKeptFirst :
      (s.receive codec line).tracker.keptFirst = kept := by
    rw [hTracker]
  constructor
  · intro hInitialised
    rw [hSame] at hInitialised
    rw [hKeptFirst]
    rcases hKept with ⟨rfl, _⟩ | ⟨_, _, _, hNot, _⟩
    · exact hSettled.kept hInitialised
    · rw [hNot] at hInitialised
      cases hInitialised
  · intro attempts early stage h
    rw [hSame]
    exact hSettled.startup attempts early stage h

/- The held line is shown when no round is on. -/
theorem takeHeld
    (hSettled : s.Settled)
    (hPhase : s.phase = .loss) :
    (s.takeHeld codec).Settled := by
  unfold Session.takeHeld
  split
  · rename_i line _
    have hHeld : ({ s with held := none }).Settled :=
      hSettled.same rfl rfl (fun _ _ _ h => ⟨_, _, _, h⟩)
    have hShown :
        ({ s with held := none }.onDaemonLine codec
          line).Settled :=
      hHeld.onDaemonLine (fun _ _ _ h => by
        cases hPhase.symm.trans h)
    exact hShown.same rfl rfl (fun _ _ _ h => ⟨_, _, _, h⟩)
  · exact hSettled

/- The pump does so line by line. -/
theorem pumpMove
    (hSettled : s.Settled)
    (hOrderly : s.Orderly)
    (hMove : PumpMove codec s e t) :
    t.Settled := by
  cases hMove with
  | «show» line hPump =>
      have hShown : (s.onDaemonLine codec line).Settled := by
        refine hSettled.onDaemonLine (fun _ _ _ h => ?_)
        have hStopped := hOrderly.away (by rw [h]; rfl)
        rw [hPump] at hStopped
        cases hStopped
      exact hShown.same rfl rfl (fun _ _ _ h => ⟨_, _, _, h⟩)
  | _ =>
      exact hSettled.same rfl rfl (fun _ _ _ h => ⟨_, _, _, h⟩)

/- The main task keeps it in every phase. -/
theorem mainMove
    (hSettled : s.Settled)
    (hMove : MainMove codec s e t) :
    t.Settled := by
  cases hMove with
  | hop e phase hHop =>
      refine hSettled.same rfl rfl (fun _ _ _ h => ?_)
      cases hHop with
      | replayed after _ _ _ _ _ hPhase
      | resent after _ _ _ _ hPhase =>
          cases h
          exact ⟨_, _, _, hPhase⟩
      | _ => cases h
  | close e _ =>
      exact hSettled.same rfl rfl (fun _ _ _ h => by cases h)
  | wait line after attempts early stage hPhase =>
      have hReceive : (s.receive codec line).Settled :=
        hSettled.receive
      unfold waitLine
      split
      · exact hReceive
      · exact hReceive.same rfl rfl (fun _ _ _ h => ⟨_, _, _, h⟩)
  | begin after attempts early hPhase =>
      refine hSettled.same rfl rfl (fun _ _ _ h => ?_)
      cases h
      exact ⟨_, _, _, hPhase⟩
  | replay key exe attempts early line id hPhase hLine _ =>
      exact hSettled.same rfl rfl (fun _ _ _ h => by cases h)
  | resend key exe after attempts early stage kept hPhase _ _ =>
      exact hSettled.same rfl rfl (fun _ _ _ h => by cases h)
  | skip line exe _ _ _ _ _ hPhase _ _ =>
      exact hSettled.same rfl rfl (fun _ _ _ h => ⟨_, _, _, h⟩)
  | replayInitialized line exe _ _ _ _ _ initialized hPhase _ =>
      refine hSettled.same rfl rfl (fun _ _ _ h => ?_)
      cases h
      exact ⟨_, _, _, hPhase⟩
  | fail e after attempts early stage u t hPhase _ hBroken
      hFailed =>
      have hU : u.Settled ∧ u.phase = s.phase := by
        cases hBroken <;>
          exact ⟨hSettled.same rfl rfl
            (fun _ _ _ h => ⟨_, _, _, h⟩), rfl⟩
      cases hFailed with
      | retry early' _ =>
          refine hU.1.same rfl rfl (fun _ _ _ h => ?_)
          cases h
          exact ⟨_, _, _, hU.2.trans hPhase⟩
      | _ =>
          exact hU.1.same rfl rfl (fun _ _ _ h => by cases h)
  | adopt e after _ _ stage _ response u hPhase hAdopted =>
      have hU : u.Settled ∧ u.phase = s.phase := by
        cases hAdopted <;>
          exact ⟨hSettled.same rfl rfl
            (fun _ _ _ h => ⟨_, _, _, h⟩), rfl⟩
      rcases u.adopt_eq codec after _ _ response with
        ⟨_, tracker, _, hEq, _, hTracker, _⟩
      have hShown : (u.tracking tracker).Settled := by
        rcases hTracker with ⟨rfl, _⟩ | ⟨line, _, hAfter, rfl, _⟩
        · exact hU.1
        · refine hU.1.onDaemonLine (fun _ _ _ h => ?_)
          rw [hU.2, hPhase] at h
          cases h
          exact hAfter rfl
      rw [hEq]
      exact hShown.same rfl rfl (fun _ _ _ h => by cases h)
  | flushLine line queue hPhase _ =>
      exact hSettled.same rfl rfl (fun _ _ _ h => by cases h)
  | forwardLine line _ =>
      have hReceive : (s.receive codec line).Settled :=
        hSettled.receive
      exact hReceive.same rfl rfl (fun _ _ _ h => by cases h)
  | waiter _ =>
      exact hSettled.same rfl rfl (fun _ _ _ h => by cases h)
  | loss t hPhase hPump hLost =>
      have hTaken : (s.takeHeld codec).Settled :=
        hSettled.takeHeld hPhase
      cases hLost with
      | now kept _ hUsed =>
          rw [reconnectNow_eq _ _ hUsed]
          exact hTaken.same rfl rfl (fun _ _ _ h => by cases h)
      | _ =>
          exact hTaken.same rfl rfl (fun _ _ _ h => by cases h)
  | awaitLine line hPhase =>
      have hReceive : (s.receive codec line).Settled :=
        hSettled.receive
      unfold awaitLine
      split
      · exact hReceive.same rfl rfl (fun _ _ _ h => by cases h)
      · exact hReceive

/- The invariant holds in every state that is reached. -/
theorem of_reachable
    (hReach : (machine setup codec).Reachable s) :
    s.Settled := by
  refine induction_of_reachable ?_
    (fun _ _ _ hSource hSettled hMove =>
      hSettled.pumpMove (.of_reachable hSource) hMove)
    (fun _ _ _ _ hSettled hMove => hSettled.mainMove hMove)
    hReach
  exact ⟨fun h => (by cases h), fun _ _ _ _ => rfl⟩

end Settled

------------------------------------------------------------
-- Initialised Sessions
------------------------------------------------------------

/-
  A session stays initialised when the held line is shown.
-/
theorem initialised_takeHeld
    (hInitialised : s.tracker.initialised = true) :
    (s.takeHeld codec).tracker.initialised = true := by
  unfold takeHeld
  split
  · exact Tracker.initialised_onDaemonLine hInitialised
  · exact hInitialised

/- What the client sends does not change that. -/
theorem initialised_receive
    {line : Line} :
    (s.receive codec line).tracker.initialised =
      s.tracker.initialised :=
  Tracker.initialised_onClientLine

/- An initialised session stays initialised. -/
theorem initialised_pumpMove
    (hInitialised : s.tracker.initialised = true)
    (hMove : PumpMove codec s e t) :
    t.tracker.initialised = true := by
  cases hMove with
  | «show» line _ =>
      exact Tracker.initialised_onDaemonLine hInitialised
  | _ => exact hInitialised

/- No step of the main task ends an initialised session. -/
theorem initialised_mainMove
    (hInitialised : s.tracker.initialised = true)
    (hMove : MainMove codec s e t) :
    t.tracker.initialised = true := by
  cases hMove with
  | wait line _ _ _ _ _ =>
      unfold waitLine
      split <;> exact initialised_receive.trans hInitialised
  | fail e _ _ _ _ u t _ _ hBroken hFailed =>
      have hU : u.tracker.initialised = true := by
        cases hBroken <;> exact hInitialised
      cases hFailed <;> exact hU
  | adopt e _ _ _ _ _ _ u _ hAdopted =>
      have hU : u.tracker.initialised = true := by
        cases hAdopted <;> exact hInitialised
      rcases u.adopt_eq codec _ _ _ _ with
        ⟨_, tracker, _, hEq, _, hTracker, _⟩
      rw [hEq]
      rcases hTracker with ⟨rfl, _⟩ | ⟨line, _, _, rfl, _⟩
      · exact hU
      · exact Tracker.initialised_onDaemonLine hU
  | forwardLine line _ =>
      exact initialised_receive.trans hInitialised
  | loss t _ _ hLost =>
      have hTaken :
          (s.takeHeld codec).tracker.initialised = true :=
        initialised_takeHeld hInitialised
      cases hLost with
      | now kept _ hUsed =>
          rw [reconnectNow_eq _ _ hUsed]
          exact hTaken
      | _ => exact hTaken
  | awaitLine line _ =>
      unfold awaitLine
      split <;> exact initialised_receive.trans hInitialised
  | _ => exact hInitialised

/- Only the client, or stdout, ends the loop. -/
theorem event_of_leaves
    (hSettled : s.Settled)
    (hInitialised : s.tracker.initialised = true)
    (hMove : MainMove codec s e t)
    (hIn : s.phase.inLoop = true)
    (hOut : t.phase.inLoop = false) :
    e = .eof ∨ e = .stdoutFailed := by
  cases hMove with
  | hop e phase hHop =>
      cases hHop with
      | eof _ => exact Or.inl rfl
      | stdoutFailed => exact Or.inr rfl
      | blocked hPhase _ | woken hPhase _ =>
          rw [hPhase] at hIn
          cases hIn
      | _ => cases hOut
  | close e hCloses =>
      cases hCloses with
      | round | disconnected => exact Or.inl rfl
      | answered hPhase _ =>
          rw [hPhase] at hIn
          cases hIn
      | drained hPhase =>
          rcases hPhase with hPhase | hPhase <;>
            rw [hPhase] at hIn <;> cases hIn
  | wait line _ _ _ _ hPhase =>
      unfold waitLine at hOut
      split at hOut <;>
        exact absurd (hIn.symm.trans hOut) (by simp)
  | skip line exe _ _ _ _ _ hPhase _ _ =>
      exact absurd (hIn.symm.trans hOut) (by simp)
  | fail e after _ _ _ u t hPhase _ hBroken hFailed =>
      have hSame :
          u.tracker.initialised = s.tracker.initialised := by
        cases hBroken <;> rfl
      cases hFailed with
      | gaveUp hRefused =>
          rcases hRefused with rfl | hNot
          · rw [hSettled.startup _ _ _ hPhase] at hInitialised
            cases hInitialised
          · rw [hSame, hInitialised] at hNot
            cases hNot
      | _ => cases hOut
  | adopt e _ _ _ _ _ _ u _ _ =>
      rcases u.adopt_eq codec _ _ _ _ with
        ⟨_, _, _, hEq, _⟩
      rw [hEq] at hOut
      cases hOut
  | waiter hPhase =>
      rw [hPhase] at hIn
      cases hIn
  | loss t hPhase _ hLost =>
      have hTaken : (s.takeHeld codec).Settled :=
        hSettled.takeHeld hPhase
      cases hLost with
      | wait _ => cases hOut
      | exit kept hKept _ | now kept hKept _ =>
          rw [hTaken.keptInFlight
            (initialised_takeHeld hInitialised)] at hKept
          cases hKept
  | awaitLine line hPhase =>
      unfold awaitLine at hOut
      split at hOut
      · cases hOut
      · exact absurd (hIn.symm.trans hOut) (by simp)
  | _ => cases hOut

------------------------------------------------------------
-- Repeated Lines
------------------------------------------------------------

/- The rounds that end with a line sent again. -/
def Resending (after : AfterHello) : Prop :=
  after = .replayForward ∨ after = .resendKept

/-
  A request that the proxy has written on its own, or that a
  round is going to write, is older than the queue.
-/
structure Repeats
    (codec : Codec Line Value)
    (s : Session Line Value) : Prop where
  written :
    ∀ c origin l, Effect.written c origin l ∈ s.log →
      origin ≠ .client → codec.request l.line ≠ none →
        l.number < s.received ∧
          ∀ l' ∈ s.queue, l.number < l'.number
  cached :
    ∀ l, s.tracker.cachedInitialize = some l →
      l.number < s.received
  idle : s.phase = .disconnected → s.queue = []
  replay :
    ∀ attempts early stage,
      s.phase = .round (some .replayDrop) attempts early stage →
        s.tracker.initialised = true ∧
          ∀ l, s.tracker.cachedInitialize = some l →
            ∀ l' ∈ s.queue, l.number < l'.number
  resend :
    ∀ after attempts early stage, Resending after →
      s.phase = .round (some after) attempts early stage →
        ∃ kept, s.tracker.keptFirst = some kept ∧
          kept.line.number < s.received ∧
            ∀ l' ∈ s.queue, kept.line.number < l'.number

namespace Repeats

/- New writes have to be older than the queue as well. -/
theorem extend
    {es : List (Effect Line Value)}
    (hRepeats : s.Repeats codec)
    (hLog : t.log = s.log ++ es)
    (hEs :
      ∀ c origin l, Effect.written c origin l ∈ es →
        origin ≠ .client → codec.request l.line ≠ none →
          l.number < s.received ∧
            ∀ l' ∈ s.queue, l.number < l'.number)
    (hReceived : t.received = s.received)
    (hQueue : t.queue.Sublist s.queue)
    (hCached :
      t.tracker.cachedInitialize = s.tracker.cachedInitialize)
    (hIdle : t.phase = .disconnected → t.queue = [])
    (hPhase :
      ∀ after attempts early stage,
        t.phase = .round (some after) attempts early stage →
          (∃ attempts early stage,
            s.phase = .round (some after) attempts early stage) ∧
            t.tracker.initialised = s.tracker.initialised ∧
              t.tracker.keptFirst = s.tracker.keptFirst) :
    t.Repeats codec := by
  have hSub : ∀ n, (∀ l' ∈ s.queue, n < l'.number) →
      ∀ l' ∈ t.queue, n < l'.number :=
    fun n h l' hMem => h l' (hQueue.subset hMem)
  constructor
  case written =>
    intro c origin l hMem hOrigin hRequest
    have hOld :
        l.number < s.received ∧
          ∀ l' ∈ s.queue, l.number < l'.number := by
      rw [hLog] at hMem
      rcases List.mem_append.mp hMem with hMem | hMem
      · exact hRepeats.written c origin l hMem hOrigin hRequest
      · exact hEs c origin l hMem hOrigin hRequest
    rw [hReceived]
    exact ⟨hOld.1, hSub _ hOld.2⟩
  case cached =>
    rw [hCached, hReceived]
    exact hRepeats.cached
  case idle => exact hIdle
  case replay =>
    intro attempts early stage h
    rcases hPhase _ _ _ _ h with
      ⟨⟨_, _, _, hOld⟩, hInitialised, _⟩
    have hReplay := hRepeats.replay _ _ _ hOld
    rw [hInitialised, hCached]
    exact ⟨hReplay.1, fun l hl => hSub _ (hReplay.2 l hl)⟩
  case resend =>
    intro after attempts early stage hAfter h
    rcases hPhase _ _ _ _ h with ⟨⟨_, _, _, hOld⟩, _, hKept⟩
    rcases hRepeats.resend _ _ _ _ hAfter hOld with
      ⟨kept, hSome, hNumber, hOlder⟩
    rw [hKept, hReceived]
    exact ⟨kept, hSome, hNumber, hSub _ hOlder⟩

/- What writes nothing. -/
theorem same
    {es : List (Effect Line Value)}
    (hRepeats : s.Repeats codec)
    (hLog : t.log = s.log ++ es)
    (hEs : ∀ c origin l, Effect.written c origin l ∉ es)
    (hReceived : t.received = s.received)
    (hQueue : t.queue.Sublist s.queue)
    (hCached :
      t.tracker.cachedInitialize = s.tracker.cachedInitialize)
    (hIdle : t.phase = .disconnected → t.queue = [])
    (hPhase :
      ∀ after attempts early stage,
        t.phase = .round (some after) attempts early stage →
          (∃ attempts early stage,
            s.phase = .round (some after) attempts early stage) ∧
            t.tracker.initialised = s.tracker.initialised ∧
              t.tracker.keptFirst = s.tracker.keptFirst) :
    t.Repeats codec :=
  hRepeats.extend hLog
    (fun c origin l hMem => absurd hMem (hEs c origin l))
    hReceived hQueue hCached hIdle hPhase

/- The line that is received is newer than what is repeated. -/
theorem receive
    {line : Line}
    (hRepeats : s.Repeats codec) :
    (s.receive codec line).Repeats codec := by
  rcases Tracker.onClientLine_eq codec s.tracker
    ⟨s.received, line⟩ with
    ⟨_, cached, _, kept, _, hEq, hCached, _, hKept, _⟩
  have hTracker : (s.receive codec line).tracker = _ := hEq
  have hSucc :
      ∀ n, n < s.received →
        n < (s.receive codec line).received :=
    fun n h => Nat.lt_succ_of_lt h
  constructor
  case written =>
    intro c origin l hMem hOrigin hRequest
    rcases List.mem_append.mp hMem with hMem | hMem
    · have hOld := hRepeats.written c origin l hMem hOrigin
        hRequest
      exact ⟨hSucc _ hOld.1, hOld.2⟩
    · simp at hMem
  case cached =>
    intro l hSome
    rw [hTracker] at hSome
    rcases hCached with rfl | ⟨_, _, rfl⟩
    · exact hSucc _ (hRepeats.cached l hSome)
    · cases hSome
      exact Nat.lt_succ_self _
  case idle => exact hRepeats.idle
  case replay =>
    intro attempts early stage h
    have hReplay := hRepeats.replay attempts early stage h
    rw [hTracker]
    refine ⟨hReplay.1, fun l hSome => ?_⟩
    rcases hCached with rfl | ⟨hNot, _⟩
    · exact hReplay.2 l hSome
    · rw [hReplay.1] at hNot
      cases hNot
  case resend =>
    intro after attempts early stage hAfter h
    rcases hRepeats.resend after attempts early stage hAfter h
      with ⟨old, hSome, hNumber, hOlder⟩
    rw [hTracker]
    rcases hKept with ⟨rfl, _⟩ | ⟨_, _, _, _, hNone, _⟩
    · exact ⟨old, hSome, hSucc _ hNumber, hOlder⟩
    · rw [hSome] at hNone
      cases hNone

/- The next line is newer than what is repeated. -/
theorem push
    {line : Line}
    (hRepeats : s.Repeats codec)
    (hPhase : s.phase ≠ .disconnected) :
    (s.push ⟨s.received, line⟩).Repeats codec := by
  have hBelow :
      ∀ n, n < s.received → (∀ l ∈ s.queue, n < l.number) →
        ∀ l ∈ s.queue ++ [⟨s.received, line⟩], n < l.number := by
    intro n hNumber hOlder l hMem
    rcases List.mem_append.mp hMem with hMem | hMem
    · exact hOlder l hMem
    · cases List.mem_singleton.mp hMem
      exact hNumber
  constructor
  case written =>
    intro c origin l hMem hOrigin hRequest
    have hOld := hRepeats.written c origin l hMem hOrigin hRequest
    exact ⟨hOld.1, hBelow _ hOld.1 hOld.2⟩
  case cached => exact hRepeats.cached
  case idle => exact fun h => absurd h hPhase
  case replay =>
    intro attempts early stage h
    have hReplay := hRepeats.replay attempts early stage h
    exact ⟨hReplay.1, fun l hSome =>
      hBelow _ (hRepeats.cached l hSome) (hReplay.2 l hSome)⟩
  case resend =>
    intro after attempts early stage hAfter h
    rcases hRepeats.resend after attempts early stage hAfter h
      with ⟨kept, hSome, hNumber, hOlder⟩
    exact ⟨kept, hSome, hNumber, hBelow _ hNumber hOlder⟩

/- A line that starts a round is the only one of the queue. -/
theorem awaitLine
    {line : Line}
    (hRepeats : s.Repeats codec)
    (hPhase : s.phase = .disconnected) :
    (s.awaitLine codec line).Repeats codec := by
  have hReceive : (s.receive codec line).Repeats codec :=
    hRepeats.receive
  have hQueue : s.queue = [] := hRepeats.idle hPhase
  have hBelow :
      ∀ n, n < s.received →
        ∀ l ∈ s.queue ++ [⟨s.received, line⟩], n < l.number := by
    intro n hNumber l hMem
    rw [hQueue] at hMem
    cases List.mem_singleton.mp hMem
    exact hNumber
  unfold Session.awaitLine
  split
  case isFalse => exact hReceive
  case isTrue =>
    constructor
    case written =>
      intro c origin l hMem hOrigin hRequest
      refine ⟨(hReceive.written c origin l hMem hOrigin
        hRequest).1, ?_⟩
      rcases List.mem_append.mp hMem with hMem | hMem
      · exact hBelow _
          (hRepeats.written c origin l hMem hOrigin hRequest).1
      · simp at hMem
    case cached => exact hReceive.cached
    case idle => exact fun h => by cases h
    case replay =>
      intro attempts early stage h
      have hReplays :
          (s.clientLine codec line).1.replaysHandshake = true := by
        simp only [startRound, «at», Phase.round.injEq,
          Option.some.injEq] at h
        rcases h with ⟨h, _⟩
        split at h
        · assumption
        · cases h
      have hInitialised : s.tracker.initialised = true := by
        rw [Tracker.replaysHandshake, Bool.and_eq_true]
          at hReplays
        exact Tracker.initialised_onClientLine.symm.trans
          hReplays.1
      refine ⟨initialised_receive.trans hInitialised,
        fun l hSome => hBelow _ ?_⟩
      rcases Tracker.onClientLine_eq codec s.tracker
        ⟨s.received, line⟩ with ⟨_, cached, _, _, _, hEq, hCached, _⟩
      have hCachedLine : cached = some l := by
        have hTracker :
            (s.clientLine codec line).1.cachedInitialize =
              some l := hSome
        unfold clientLine at hTracker
        rw [hEq] at hTracker
        exact hTracker
      rcases hCached with rfl | ⟨hNot, _⟩
      · exact hRepeats.cached l hCachedLine
      · rw [hInitialised] at hNot
        cases hNot
    case resend =>
      intro after attempts early stage hAfter h
      simp only [startRound, «at», Phase.round.injEq,
        Option.some.injEq] at h
      rcases h with ⟨rfl, _⟩
      rcases hAfter with h | h <;> split at h <;> cases h

/- The pump writes nothing to the daemon. -/
theorem pumpMove
    (hRepeats : s.Repeats codec)
    (hOrderly : s.Orderly)
    (hMove : PumpMove codec s e t) :
    t.Repeats codec := by
  cases hMove with
  | «show» line hPump =>
      rcases Tracker.onDaemonLine_eq codec s.tracker line with
        ⟨_, _, _, hEq, _⟩
      unfold Session.onDaemonLine
      rw [hEq]
      refine hRepeats.same rfl (by simp) rfl (.refl _) rfl
        hRepeats.idle (fun _ _ _ _ h => ?_)
      have hStopped := hOrderly.away (congrArg Phase.away h)
      rw [hPump] at hStopped
      cases hStopped
  | read line _ | send line _ =>
      exact hRepeats.same rfl (by simp) rfl (.refl _) rfl
        hRepeats.idle (fun _ _ _ _ h => ⟨⟨_, _, _, h⟩, rfl, rfl⟩)
  | _ =>
      exact hRepeats.same (List.append_nil _).symm (by simp) rfl
        (.refl _) rfl hRepeats.idle
        (fun _ _ _ _ h => ⟨⟨_, _, _, h⟩, rfl, rfl⟩)

section Round

variable {after : Option AfterHello}
variable {attempts : Nat}
variable {stage : Stage Line Value}

/- A line that is read in a round is not written. -/
theorem hear
    {line : Line}
    (hRepeats : s.Repeats codec) :
    (s.hear line).Repeats codec :=
  hRepeats.same rfl (by simp) rfl (.refl _) rfl hRepeats.idle
    (fun _ _ _ _ h => ⟨⟨_, _, _, h⟩, rfl, rfl⟩)

/- An attempt that breaks writes a part of what it would. -/
theorem broken
    (hRepeats : s.Repeats codec)
    (hBroken : Broken s after stage u) :
    u.Repeats codec ∧ u.phase = s.phase := by
  cases hBroken with
  | failed => exact ⟨hRepeats, rfl⟩
  | answered line _ => exact ⟨hRepeats.hear, rfl⟩
  | _ =>
      refine ⟨hRepeats.same (List.append_nil _).symm (by simp) rfl
        (.refl _) rfl hRepeats.idle ?_, rfl⟩
      exact fun _ _ _ _ h => ⟨⟨_, _, _, h⟩, rfl, rfl⟩

/- A round that fails goes on or ends. -/
theorem failed
    {early : Bool}
    (hRepeats : u.Repeats codec)
    (hPhase : u.phase = .round after attempts early stage)
    (hFailed : Failed u after attempts t) :
    t.Repeats codec := by
  cases hFailed with
  | gaveUp _ =>
      exact hRepeats.same rfl (by simp) rfl (.refl _) rfl
        (fun h => by cases h) (fun _ _ _ _ h => by cases h)
  | pending message _ _ =>
      exact hRepeats.same rfl (by simp) rfl (List.nil_sublist _)
        rfl (fun _ => rfl) (fun _ _ _ _ h => by cases h)
  | retry early' _ =>
      refine hRepeats.same (List.append_nil _).symm (by simp) rfl
        (.refl _) rfl (fun h => by cases h)
        (fun _ _ _ _ h => ?_)
      cases h
      exact ⟨⟨_, _, _, hPhase⟩, rfl, rfl⟩

/- What is written on adoption is older than the queue. -/
theorem adopted
    {key : String}
    {response : Option Line}
    (hRepeats : s.Repeats codec)
    (hAdopted : Adopted codec s after stage key response u) :
    u.Repeats codec := by
  cases hAdopted with
  | hello _ _ =>
      exact hRepeats.same (List.append_nil _).symm (by simp) rfl
        (.refl _) rfl hRepeats.idle
        (fun _ _ _ _ h => ⟨⟨_, _, _, h⟩, rfl, rfl⟩)
  | replayed | resent => exact hRepeats
  | _ => exact hRepeats.hear

theorem adopt
    {key : String}
    {response : Option Line}
    (hRepeats : u.Repeats codec) :
    (u.adopt codec after attempts key
      response).Repeats codec := by
  rcases u.adopt_eq codec after attempts key
    response with ⟨es, tracker, _, hEq, hEs, hTracker, _⟩
  have hCached :
      tracker.cachedInitialize = u.tracker.cachedInitialize := by
    rcases hTracker with ⟨rfl, _⟩ | ⟨line, _, _, rfl, _⟩
    · rfl
    · rcases Tracker.onDaemonLine_eq codec u.tracker line with
        ⟨_, _, _, hShown, _⟩
      rw [hShown]
  rw [hEq]
  refine hRepeats.same rfl (fun c origin l hMem => ?_) rfl
    (.refl _) hCached (fun h => by cases h)
    (fun _ _ _ _ h => by cases h)
  rcases hEs _ hMem with h | ⟨_, _, _, h⟩ <;> cases h

end Round

/- The held line is no write either. -/
theorem takeHeld
    (hRepeats : s.Repeats codec)
    (hPhase : s.phase = .loss) :
    (s.takeHeld codec).Repeats codec := by
  rcases s.takeHeld_eq codec with
    ⟨es, tracker, hEq, hHeld⟩
  have hCached :
      tracker.cachedInitialize = s.tracker.cachedInitialize := by
    rcases hHeld with ⟨_, _, rfl⟩ | ⟨line, _, _, rfl⟩
    · rfl
    · rcases Tracker.onDaemonLine_eq codec s.tracker line with
        ⟨_, _, _, hShown, _⟩
      rw [hShown]
  rw [hEq]
  refine hRepeats.same rfl (fun c origin l hMem => ?_) rfl
    (.refl _) hCached hRepeats.idle (fun _ _ _ _ h => ?_)
  · rcases hHeld with ⟨_, rfl, _⟩ | ⟨line, _, rfl, _⟩ <;>
      simp at hMem
  · cases hPhase.symm.trans h

/- A loss begins a round with an older line. -/
theorem lost
    (hRepeats : u.Repeats codec)
    (hDelivered : u.Delivered)
    (hLost : Lost codec u t) :
    t.Repeats codec := by
  cases hLost with
  | wait _ =>
      exact hRepeats.same rfl (by simp) rfl (List.nil_sublist _)
        rfl (fun _ => rfl) (fun _ _ _ _ h => by cases h)
  | exit kept _ _ =>
      exact hRepeats.same (List.append_assoc _ _ _) (by simp) rfl
        (List.nil_sublist _) rfl (fun _ => rfl)
        (fun _ _ _ _ h => by cases h)
  | now kept hKept hUsed =>
      have hFirst : u.tracker.keptFirst = some kept :=
        (Option.filter_eq_some_iff.mp hKept).1
      rcases hDelivered.kept kept hFirst with ⟨kind, hReceived⟩
      rw [reconnectNow_eq _ _ hUsed]
      constructor
      case written =>
        intro c origin l hMem hOrigin hRequest
        rcases List.mem_append.mp hMem with hMem | hMem
        · have hOld := hRepeats.written c origin l hMem hOrigin
            hRequest
          exact ⟨hOld.1, fun l' hMem' => by cases hMem'⟩
        · simp at hMem
      case cached => exact hRepeats.cached
      case idle => exact fun h => by cases h
      case replay =>
        intro attempts early stage h
        simp only [Phase.round.injEq, Option.some.injEq] at h
        rcases h with ⟨h, _⟩
        split at h <;> cases h
      case resend =>
        intro after attempts early stage hAfter h
        exact ⟨kept, hFirst,
          hDelivered.received _ _ _ hReceived,
          fun l' hMem' => by cases hMem'⟩

/- The main task keeps it in every phase. -/
theorem mainMove
    (hRepeats : s.Repeats codec)
    (hCached : s.Cached codec)
    (hDelivered : s.Delivered)
    (hMove : MainMove codec s e t) :
    t.Repeats codec := by
  cases hMove with
  | hop e phase hHop =>
      refine hRepeats.same (List.append_nil _).symm (by simp) rfl
        (.refl _) rfl (fun h => ?_) (fun _ _ _ _ h => ?_)
      · cases hHop <;> cases h
      · cases hHop with
        | replayed _ _ _ _ _ _ hPhase | resent _ _ _ _ _ hPhase =>
            cases h
            exact ⟨⟨_, _, _, hPhase⟩, rfl, rfl⟩
        | _ => cases h
  | close e _ =>
      exact hRepeats.same rfl (by simp) rfl (.refl _) rfl
        (fun h => by cases h) (fun _ _ _ _ h => by cases h)
  | wait line _ _ _ _ hPhase =>
      unfold waitLine
      split
      · exact hRepeats.receive
      · have hPush :
            (s.push ⟨s.received, line⟩).Repeats codec :=
          hRepeats.push (by simp [hPhase])
        exact hPush.receive
  | begin after attempts early hPhase =>
      refine hRepeats.same rfl (by simp) rfl (.refl _) rfl
        (fun h => by cases h) (fun _ _ _ _ h => ?_)
      cases h
      exact ⟨⟨_, _, _, hPhase⟩, rfl, rfl⟩
  | replay key exe attempts early line id hPhase hLine _ =>
      have hReplay := hRepeats.replay _ _ _ hPhase
      refine hRepeats.extend rfl ?_ rfl (.refl _) rfl
        (fun h => by cases h) (fun _ _ _ _ h => ?_)
      · intro c origin l hMem _ _
        cases List.mem_singleton.mp hMem
        exact ⟨hRepeats.cached line hLine, hReplay.2 line hLine⟩
      · cases h
        exact ⟨⟨_, _, _, hPhase⟩, rfl, rfl⟩
  | resend key exe after _ _ stage kept hPhase hKept hStage =>
      have hAfter : Resending after := by
        rcases hStage with ⟨rfl, _⟩ | ⟨rfl, _⟩
        · exact Or.inl rfl
        · exact Or.inr rfl
      rcases hRepeats.resend _ _ _ _ hAfter hPhase with
        ⟨kept', hKept', hOlder⟩
      rw [hKept] at hKept'
      cases hKept'
      refine hRepeats.extend rfl ?_ rfl (.refl _) rfl
        (fun h => by cases h) (fun _ _ _ _ h => ?_)
      · intro c origin l hMem _ _
        cases List.mem_singleton.mp hMem
        exact hOlder
      · cases h
        exact ⟨⟨_, _, _, hPhase⟩, rfl, rfl⟩
  | skip line exe _ _ _ _ _ _ _ _ => exact hRepeats.hear
  | replayInitialized line exe _ _ _ _ _ initialized hPhase _ =>
      have hLine : codec.isInitialized initialized.line = true :=
        hCached.stage initialized (by rw [hPhase]; rfl)
      refine hRepeats.extend (List.append_assoc _ _ _) ?_ rfl
        (.refl _) rfl (fun h => by cases h) (fun _ _ _ _ h => ?_)
      · intro c origin l hMem _ hRequest
        simp only [List.cons_append, List.nil_append,
          List.mem_cons, reduceCtorEq, Effect.written.injEq,
          List.not_mem_nil, or_false, false_or] at hMem
        rcases hMem with ⟨_, _, rfl⟩
        exact absurd (Codec.request_of_isInitialized hLine)
          hRequest
      · cases h
        exact ⟨⟨_, _, _, hPhase⟩, rfl, rfl⟩
  | fail e after _ _ _ u t hPhase _ hBroken hFailed =>
      rcases hRepeats.broken hBroken with ⟨hU, hSame⟩
      exact hU.failed (hSame.trans hPhase) hFailed
  | adopt e _ _ _ _ _ _ u _ hAdopted =>
      exact (hRepeats.adopted hAdopted).adopt
  | flushLine line queue hPhase hQueue =>
      refine hRepeats.extend rfl ?_ rfl ?_ rfl
        (fun h => by cases h) (fun _ _ _ _ h => by cases h)
      · intro c origin l hMem hOrigin _
        cases List.mem_singleton.mp hMem
        exact absurd rfl hOrigin
      · rw [hQueue]
        exact List.sublist_cons_self _ _
  | forwardLine line _ =>
      have hReceive : (s.receive codec line).Repeats codec :=
        hRepeats.receive
      refine hReceive.extend rfl ?_ rfl (.refl _) rfl
        (fun h => by cases h) (fun _ _ _ _ h => by cases h)
      intro c origin l hMem hOrigin _
      cases List.mem_singleton.mp hMem
      exact absurd rfl hOrigin
  | waiter _ =>
      exact hRepeats.same (List.append_nil _).symm (by simp) rfl
        (.refl _) rfl (fun h => by cases h)
        (fun _ _ _ _ h => by cases h)
  | loss t hPhase _ hLost =>
      exact (hRepeats.takeHeld hPhase).lost hDelivered.takeHeld
        hLost
  | awaitLine line hPhase => exact hRepeats.awaitLine hPhase

/- The invariant holds in every state that is reached. -/
theorem of_reachable
    (hReach : (machine setup codec).Reachable s) :
    s.Repeats codec := by
  refine induction_of_reachable ?_
    (fun _ _ _ hSource hRepeats hMove =>
      hRepeats.pumpMove (.of_reachable hSource) hMove)
    (fun _ _ _ hSource hRepeats hMove =>
      hRepeats.mainMove (.of_reachable hSource)
        (.of_reachable hSource) hMove) hReach
  constructor
  case idle => exact fun _ => rfl
  all_goals simp [start, Tracker.default]

end Repeats

------------------------------------------------------------
-- New Writes
------------------------------------------------------------

/-
  What a step writes of the requests of the client: the
  cached handshake, or a line that is written for the first
  time.
-/
def Fresh
    (codec : Codec Line Value)
    (s : Session Line Value)
    (es : List (Effect Line Value)) : Prop :=
  ∀ c origin l, Effect.written c origin l ∈ es →
    codec.request l.line ≠ none →
      (origin = .replay ∧ s.tracker.cachedInitialize = some l) ∨
        ∀ c' origin', Effect.written c' origin' l ∉ s.log

theorem Fresh.of_none
    {es : List (Effect Line Value)}
    (hEs : ∀ c origin l, Effect.written c origin l ∉ es) :
    s.Fresh codec es :=
  fun c origin l hMem => absurd hMem (hEs c origin l)

/- All requests that were written are older than the queue. -/
theorem older_of_written
    {c : Nat}
    {origin : Origin}
    {l : Numbered Line}
    (hDelivered : s.Delivered)
    (hRepeats : s.Repeats codec)
    (hMem : Effect.written c origin l ∈ s.log)
    (hRequest : codec.request l.line ≠ none) :
    l.number < s.received ∧
      ∀ l' ∈ s.queue, l.number < l'.number := by
  cases origin with
  | client => exact hDelivered.written c l hMem
  | _ => exact hRepeats.written c _ l hMem (by simp) hRequest

/-
  Once initialised, the main task sends no request again.
-/
theorem fresh_of_mainMove
    (hSettled : s.Settled)
    (hCached : s.Cached codec)
    (hDelivered : s.Delivered)
    (hRepeats : s.Repeats codec)
    (hInitialised : s.tracker.initialised = true)
    (hMove : MainMove codec s e t) :
    ∃ es, t.log = s.log ++ es ∧ s.Fresh codec es := by
  cases hMove with
  | hop e phase _ | waiter _ =>
      exact ⟨[], (List.append_nil _).symm, .of_none (by simp)⟩
  | close e _ | begin _ _ _ _ | skip _ _ _ _ _ _ _ _ _ _ =>
      exact ⟨_, rfl, .of_none (by simp)⟩
  | wait line _ _ _ _ _ =>
      unfold waitLine
      split <;> exact ⟨_, rfl, .of_none (by simp)⟩
  | replay key exe attempts early line id _ hLine _ =>
      refine ⟨_, rfl, fun c origin l hMem _ => ?_⟩
      cases List.mem_singleton.mp hMem
      exact Or.inl ⟨rfl, hLine⟩
  | resend key exe _ _ _ stage kept _ hKept _ =>
      rw [hSettled.kept hInitialised] at hKept
      cases hKept
  | replayInitialized line exe _ _ _ _ _ initialized hPhase _ =>
      have hLine : codec.isInitialized initialized.line = true :=
        hCached.stage initialized (by rw [hPhase]; rfl)
      refine ⟨_, List.append_assoc _ _ _,
        fun c origin l hMem hRequest => ?_⟩
      simp only [List.cons_append, List.nil_append,
        List.mem_cons, reduceCtorEq, Effect.written.injEq,
        List.not_mem_nil, or_false, false_or] at hMem
      rcases hMem with ⟨_, _, rfl⟩
      exact absurd (Codec.request_of_isInitialized hLine) hRequest
  | fail e after attempts _ _ u t _ _ hBroken hFailed =>
      have hU :
          ∃ es, u.log = s.log ++ es ∧
            ∀ c origin l, Effect.written c origin l ∉ es := by
        cases hBroken with
        | answered line _ => exact ⟨_, rfl, by simp⟩
        | _ => exact ⟨[], (List.append_nil _).symm, by simp⟩
      rcases hU with ⟨es, hLog, hEs⟩
      have hT :
          ∃ es, t.log = u.log ++ es ∧
            ∀ c origin l, Effect.written c origin l ∉ es := by
        cases hFailed with
        | retry _ _ =>
            exact ⟨[], (List.append_nil _).symm, by simp⟩
        | _ => exact ⟨_, rfl, by simp⟩
      rcases hT with ⟨es', hLog', hEs'⟩
      refine ⟨es ++ es', ?_, .of_none ?_⟩
      · rw [hLog', hLog, List.append_assoc]
      · simp [hEs, hEs']
  | adopt e _ _ _ _ _ _ u _ hAdopted =>
      have hU :
          ∃ es, u.log = s.log ++ es ∧
            ∀ c origin l, Effect.written c origin l ∉ es := by
        cases hAdopted with
        | answered | forwarded => exact ⟨_, rfl, by simp⟩
        | _ => exact ⟨[], (List.append_nil _).symm, by simp⟩
      rcases hU with ⟨es, hLog, hEs⟩
      rcases u.adopt_eq codec _ _ _ _ with
        ⟨es', _, _, hEq, hEs', _⟩
      rw [hEq]
      refine ⟨es ++ es', ?_, .of_none fun c origin l hMem => ?_⟩
      · rw [← List.append_assoc, ← hLog]
      · rcases List.mem_append.mp hMem with hMem | hMem
        · exact hEs c origin l hMem
        · rcases hEs' _ hMem with h | ⟨_, _, _, h⟩ <;> cases h
  | flushLine line queue _ hQueue =>
      refine ⟨_, rfl, fun c origin l hMem hRequest => ?_⟩
      cases List.mem_singleton.mp hMem
      refine Or.inr (fun c' origin' hOld => ?_)
      have hOlder :=
        older_of_written hDelivered hRepeats hOld hRequest
      have hFirst : line ∈ s.queue :=
        hQueue ▸ List.mem_cons_self
      exact Nat.lt_irrefl _ (hOlder.2 line hFirst)
  | forwardLine line _ =>
      refine ⟨_, List.append_assoc _ _ _,
        fun c origin l hMem hRequest => ?_⟩
      simp only [List.cons_append, List.nil_append,
        List.mem_cons, reduceCtorEq, Effect.written.injEq,
        List.not_mem_nil, or_false, false_or] at hMem
      rcases hMem with ⟨_, _, rfl⟩
      refine Or.inr (fun c' origin' hOld => ?_)
      have hOlder :=
        older_of_written hDelivered hRepeats hOld hRequest
      exact Nat.lt_irrefl _ hOlder.1
  | loss t _ _ hLost =>
      have hTaken :
          ∃ es, (s.takeHeld codec).log = s.log ++ es ∧
            ∀ c origin l, Effect.written c origin l ∉ es := by
        rcases s.takeHeld_eq codec with
          ⟨es, tracker, hEq, hHeld⟩
        refine ⟨es, by rw [hEq], ?_⟩
        rcases hHeld with ⟨_, rfl, _⟩ | ⟨line, _, rfl, _⟩ <;> simp
      rcases hTaken with ⟨es, hLog, hEs⟩
      have hT :
          ∃ es, t.log = (s.takeHeld codec).log ++ es ∧
            ∀ c origin l, Effect.written c origin l ∉ es := by
        cases hLost with
        | wait _ => exact ⟨_, rfl, by simp⟩
        | exit kept _ _ =>
            exact ⟨_, List.append_assoc _ _ _, by simp⟩
        | now kept _ hUsed =>
            rw [reconnectNow_eq _ _ hUsed]
            exact ⟨_, rfl, by simp⟩
      rcases hT with ⟨es', hLog', hEs'⟩
      refine ⟨es ++ es', ?_, .of_none ?_⟩
      · rw [hLog', hLog, List.append_assoc]
      · simp [hEs, hEs']
  | awaitLine line _ =>
      unfold awaitLine
      split <;> exact ⟨_, rfl, .of_none (by simp)⟩

/- The pump sends no request at all. -/
theorem fresh_of_pumpMove
    (hMove : PumpMove codec s e t) :
    ∃ es, t.log = s.log ++ es ∧ s.Fresh codec es := by
  cases hMove with
  | read line _ | «show» line _ | send line _ =>
      exact ⟨_, rfl, .of_none (by simp)⟩
  | _ => exact ⟨[], (List.append_nil _).symm, .of_none (by simp)⟩

end Session

/-
  From the moment on that a session is initialised no step
  leaves the loop, whatever is lost and whatever fails, but
  the end of stdin and a failed write to stdout, and a request
  that a step writes again is the cached handshake.
-/
theorem survives
    {setup : Setup} {codec : Codec Line Value}
    {s u t : Session Line Value}
    {es : List (Event Line)} {e : Event Line}
    (hReach : (machine setup codec).Reachable s)
    (hInitialised : s.tracker.initialised = true)
    (hRun : (machine setup codec).Run s es u)
    (hStep : (machine setup codec).step u e t) :
    u.tracker.initialised = true ∧
      (u.phase.inLoop = true → t.phase.inLoop = false →
        e = .eof ∨ e = .stdoutFailed) ∧
      ∃ new, t.log = u.log ++ new ∧ u.Fresh codec new := by
  have hReachU : (machine setup codec).Reachable u := by
    rcases hReach with ⟨s₀, fs, hStart, hFirst⟩
    exact ⟨s₀, _, hStart, hFirst.append hRun⟩
  have hStays : u.tracker.initialised = true := by
    refine hRun.invariant
      (I := fun s => s.tracker.initialised = true)
      (fun s e t hOld hNext => ?_) hInitialised
    rcases Session.next_eq_some hNext with hMove | hMove
    · exact Session.initialised_pumpMove hOld hMove
    · exact Session.initialised_mainMove hOld hMove
  have hSettled : u.Settled :=
    Session.Settled.of_reachable hReachU
  refine ⟨hStays, ?_⟩
  rcases Session.next_eq_some hStep with hMove | hMove
  · refine ⟨fun hIn hOut => ?_, Session.fresh_of_pumpMove hMove⟩
    have hPhase : t.phase = u.phase := by
      cases hMove <;> rfl
    rw [hPhase, hIn] at hOut
    cases hOut
  · exact ⟨Session.event_of_leaves hSettled hStays hMove,
      Session.fresh_of_mainMove hSettled (.of_reachable hReachU)
        (.of_reachable hReachU) (.of_reachable hReachU) hStays
        hMove⟩

/-
  The third failed attempt of a round, after which the proxy
  waits for the next request.
-/
theorem survives_round :
    ∃ u t : Session (Envelope String) String,
      u.tracker.initialised = true ∧
        u.phase = .round (some .replayDrop) 3 false .connect ∧
          t.phase = .disconnected ∧
            ∃ new, t.log = u.log ++ new ∧
              u.Fresh .members new := by
  let refused : List (Event (Envelope String)) :=
    [.begin, .failed (.resolve "no config") ⟨true, none⟩]
  let later : List (Event (Envelope String)) :=
    [.client (.call "1" "tools/call"), .written, .cut, .pump,
      .lost, .step, .client (.call "2" "tools/call")] ++
        refused ++ refused ++ [.begin]
  let last : Event (Envelope String) :=
    .failed (.resolve "no config") ⟨true, none⟩
  let final : Session (Envelope String) String → Bool := fun u =>
    decide (u.phase =
      .round (some .replayDrop) 3 false .connect) &&
        (u.next .sample .members last).any
          (fun t => decide (t.phase = .disconnected))
  rcases run_of_any .sample .members
    [.begin, .connected "k" ⟨true, none⟩, .step,
      .client (.call "0" "initialize"), .written,
      .read (.answer "0"), .credit true, .pump, .pump, .pump,
      .pump, .pump]
    (fun s => s.tracker.initialised &&
      (later.foldlM (Session.next .sample .members) s).any final)
    (by decide +kernel) with ⟨s, hReach, hTest⟩
  rw [Bool.and_eq_true] at hTest
  rcases Machine.Run.of_any (fun s => s = .start) s later final
    hTest.2 with ⟨u, hRun, hFinal⟩
  simp only [final, Bool.and_eq_true, decide_eq_true_eq,
    Option.any_eq_true] at hFinal
  rcases hFinal with ⟨hPhase, t, hNext, hDown⟩
  have hAfter := survives hReach hTest.1 hRun hNext
  exact ⟨u, t, hAfter.1, hPhase, hDown, hAfter.2.2⟩

end Proxy

end Ferrex
