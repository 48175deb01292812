import Ferrex.Lib.History
import Ferrex.Proxy.Moves

/-
  The delivery of a client's lines over all connections: a
  request that is no `initialize`, and that did not become the
  kept first request, is written once at most, in the order of
  the client, and never after an error has answered it.

  Main declarations:
    * `Session.Cached`, `Session.Replays`
    * `Overtaken`, `Session.Delivered`
    * `Plain`, `written_once`
-/

------------------------------------------------------------
-- Cached Lines
------------------------------------------------------------

namespace Ferrex

namespace Proxy

variable {Line Value : Type}

/- The `notifications/initialized` that a replay has read. -/
def Phase.initialized :
    Phase Line Value → Option (Numbered Line)
| .round _ _ _ (.replayInitialize _ _ initialized) => initialized
| .round _ _ _ (.response _ _ initialized) => initialized
| _ => none

/- A line of the handshake. -/
def Handshake
    (codec : Codec Line Value)
    (line : Line) : Prop :=
  (∃ id, codec.request line = some (id, initializeMethod)) ∨
    codec.isInitialized line = true

namespace Session

variable {setup : Setup} {codec : Codec Line Value}
variable {s t u : Session Line Value} {e : Event Line}

/- What is cached, or replayed, is the handshake. -/
structure Cached
    (codec : Codec Line Value)
    (s : Session Line Value) : Prop where
  handshake :
    ∀ l, s.tracker.cachedInitialize = some l →
      ∃ id, codec.request l.line = some (id, initializeMethod)
  initialized :
    ∀ l, s.tracker.cachedInitialized = some l →
      codec.isInitialized l.line = true
  stage :
    ∀ l, s.phase.initialized = some l →
      codec.isInitialized l.line = true
  replays :
    ∀ c l, Effect.written c .replay l ∈ s.log →
      Handshake codec l.line

namespace Cached

/-
  A step that replays nothing and keeps what is cached keeps
  the invariant.
-/
theorem extend
    {es : List (Effect Line Value)}
    (hCached : s.Cached codec)
    (hLog : t.log = s.log ++ es)
    (hEs : ∀ c l, Effect.written c .replay l ∉ es)
    (hInitialize :
      t.tracker.cachedInitialize = s.tracker.cachedInitialize)
    (hInitialized :
      t.tracker.cachedInitialized = s.tracker.cachedInitialized)
    (hPhase :
      t.phase.initialized = s.phase.initialized ∨
        t.phase.initialized = none) :
    t.Cached codec where
  handshake := hInitialize ▸ hCached.handshake
  initialized := hInitialized ▸ hCached.initialized
  stage := by
    intro l hStage
    rcases hPhase with hPhase | hPhase
    · exact hCached.stage l (hPhase ▸ hStage)
    · rw [hPhase] at hStage
      cases hStage
  replays := by
    intro c l hMem
    rw [hLog] at hMem
    rcases List.mem_append.mp hMem with hMem | hMem
    · exact hCached.replays c l hMem
    · exact absurd hMem (hEs c l)

/- What has no log of its own. -/
theorem same
    (hCached : s.Cached codec)
    (hLog : t.log = s.log)
    (hInitialize :
      t.tracker.cachedInitialize = s.tracker.cachedInitialize)
    (hInitialized :
      t.tracker.cachedInitialized = s.tracker.cachedInitialized)
    (hPhase :
      t.phase.initialized = s.phase.initialized ∨
        t.phase.initialized = none) :
    t.Cached codec :=
  hCached.extend (hLog.trans (List.append_nil _).symm) (by simp)
    hInitialize hInitialized hPhase

/- A line of the daemon caches nothing. -/
theorem onDaemonLine
    {line : Line}
    (hCached : s.Cached codec) :
    (s.onDaemonLine codec line).Cached codec := by
  rcases Tracker.onDaemonLine_eq codec s.tracker line with
    ⟨_, _, _, hEq, _⟩
  unfold Session.onDaemonLine
  rw [hEq]
  exact hCached.same rfl rfl rfl (Or.inl rfl)

/- A line of the client can only fill the cache. -/
theorem receive
    {line : Line}
    (hCached : s.Cached codec) :
    (s.receive codec line).Cached codec := by
  rcases Tracker.onClientLine_eq codec s.tracker
    ⟨s.received, line⟩ with
    ⟨_, cached, initialized, _, _, hEq, hNew, hNewInit, _⟩
  constructor
  case handshake =>
    intro l hSome
    have hAt : cached = some l :=
      (congrArg Tracker.cachedInitialize hEq).symm.trans hSome
    rcases hNew with rfl | ⟨_, hRequest, rfl⟩
    · exact hCached.handshake l hAt
    · cases hAt
      exact hRequest
  case initialized =>
    intro l hSome
    have hAt : initialized = some l :=
      (congrArg Tracker.cachedInitialized hEq).symm.trans hSome
    rcases hNewInit with ⟨_, rfl⟩ | ⟨hInitialized, rfl⟩
    · exact hCached.initialized l hAt
    · cases hAt
      exact hInitialized
  case stage => exact hCached.stage
  case replays =>
    intro c l hMem
    rcases List.mem_append.mp hMem with hMem | hMem
    · exact hCached.replays c l hMem
    · simp at hMem

/- The write of a line of the handshake. -/
theorem replay
    {line : Numbered Line}
    (hCached : s.Cached codec)
    (hLine : Handshake codec line.line) :
    (s.write .replay line).Cached codec where
  handshake := hCached.handshake
  initialized := hCached.initialized
  stage := hCached.stage
  replays := by
    intro c l hMem
    rcases List.mem_append.mp hMem with hMem | hMem
    · exact hCached.replays c l hMem
    · cases List.mem_singleton.mp hMem
      exact hLine

/- The pump leaves the cached handshake alone. -/
theorem pumpMove
    (hCached : s.Cached codec)
    (hMove : PumpMove codec s e t) :
    t.Cached codec := by
  cases hMove with
  | turn e pump _ => exact hCached.same rfl rfl rfl (Or.inl rfl)
  | read line _ =>
      exact hCached.extend rfl (by simp) rfl rfl (Or.inl rfl)
  | takeHeld line _ _ =>
      exact hCached.same rfl rfl rfl (Or.inl rfl)
  | «show» line _ =>
      have hShown : (s.onDaemonLine codec line).Cached codec :=
        hCached.onDaemonLine
      exact hShown.extend rfl (by simp) rfl rfl (Or.inl rfl)
  | send line _ =>
      exact hCached.extend rfl (by simp) rfl rfl (Or.inl rfl)
  | notify _ => exact hCached.same rfl rfl rfl (Or.inl rfl)

/-
  A broken attempt has sent a part of the replay, and all of
  it was cached.
-/
theorem broken
    {after : Option AfterHello}
    {stage : Stage Line Value}
    (hCached : s.Cached codec)
    (hBroken : Broken s after stage u) :
    u.Cached codec := by
  cases hBroken with
  | failed => exact hCached
  | answered line _ =>
      exact hCached.extend rfl (by simp) rfl rfl (Or.inl rfl)
  | _ => exact hCached.same rfl rfl rfl (Or.inl rfl)

/- What a failed attempt sent came from the cache too. -/
theorem failed
    {after : Option AfterHello}
    {attempts : Nat}
    (hCached : u.Cached codec)
    (hFailed : Failed u after attempts t) :
    t.Cached codec := by
  cases hFailed with
  | retry _ _ => exact hCached.same rfl rfl rfl (Or.inr rfl)
  | _ => exact hCached.extend rfl (by simp) rfl rfl (Or.inr rfl)

/- An adopted attempt has sent all of it. -/
theorem adopted
    {after : Option AfterHello}
    {stage : Stage Line Value}
    {key : String}
    {response : Option Line}
    (hCached : s.Cached codec)
    (hAdopted : Adopted codec s after stage key response u) :
    u.Cached codec := by
  cases hAdopted with
  | hello _ _ => exact hCached.same rfl rfl rfl (Or.inl rfl)
  | replayed | resent => exact hCached
  | _ => exact hCached.extend rfl (by simp) rfl rfl (Or.inl rfl)

/- A finished round keeps what is cached. -/
theorem adopt
    {after : Option AfterHello}
    {attempts : Nat}
    {key : String}
    {response : Option Line}
    (hCached : u.Cached codec) :
    (u.adopt codec after attempts key response).Cached codec := by
  rcases u.adopt_eq codec after attempts key
    response with ⟨es, tracker, _, hEq, hEs, hTracker, _⟩
  have hShown : (u.tracking tracker).Cached codec := by
    rcases hTracker with ⟨rfl, _⟩ | ⟨line, _, _, rfl, _⟩
    · exact hCached
    · exact hCached.onDaemonLine
  rw [hEq]
  refine hShown.extend rfl (fun c l hMem => ?_) rfl rfl
    (Or.inr rfl)
  rcases hEs _ hMem with h | ⟨_, _, _, h⟩ <;> cases h

/- The lines that were held are the daemon's. -/
theorem takeHeld
    (hCached : s.Cached codec) :
    (s.takeHeld codec).Cached codec := by
  unfold Session.takeHeld
  split
  · rename_i line _
    have hShown :
        ({ s with held := none }.onDaemonLine codec
          line).Cached codec :=
      (hCached.same (t := { s with held := none }) rfl rfl rfl
        (Or.inl rfl)).onDaemonLine
    exact (hShown.extend (t := Session.record _ _) rfl (by simp)
      rfl rfl (Or.inl rfl)).extend rfl (by simp) rfl rfl
        (Or.inl rfl)
  · exact hCached

/- A loss answers ids and keeps the cache. -/
theorem lost
    (hCached : u.Cached codec)
    (hLost : Lost codec u t) :
    t.Cached codec := by
  cases hLost with
  | now kept _ hUsed =>
      rw [reconnectNow_eq _ _ hUsed]
      exact hCached.extend rfl (by simp) rfl rfl (Or.inr rfl)
  | exit kept _ _ =>
      exact hCached.extend (List.append_assoc _ _ _) (by simp)
        rfl rfl (Or.inr rfl)
  | wait _ =>
      exact hCached.extend rfl (by simp) rfl rfl (Or.inr rfl)

/- Case by case for the main loop. -/
theorem mainMove
    (hCached : s.Cached codec)
    (hMove : MainMove codec s e t) :
    t.Cached codec := by
  cases hMove with
  | hop e phase hHop =>
      refine hCached.same rfl rfl rfl ?_
      cases hHop with
      | replayed _ _ _ _ _ _ hPhase =>
          rw [hPhase]
          exact Or.inl rfl
      | _ => exact Or.inr rfl
  | close e _ =>
      exact hCached.extend rfl (by simp) rfl rfl (Or.inr rfl)
  | wait line _ _ _ _ hPhase =>
      have hReceive : (s.receive codec line).Cached codec :=
        hCached.receive
      unfold waitLine
      split
      · exact hReceive
      · exact hReceive.same rfl rfl rfl (Or.inl rfl)
  | begin after attempts early hPhase =>
      exact hCached.extend rfl (by simp) rfl rfl (Or.inr rfl)
  | replay key exe attempts early line id hPhase hLine _ =>
      have hConn :
          ({ s with conn := s.conn + 1 }.replaying).Cached codec :=
        hCached.same rfl rfl rfl (Or.inl rfl)
      have hWritten := hConn.replay
        (Or.inl (hCached.handshake line hLine))
      refine ⟨hWritten.handshake, hWritten.initialized, ?_,
        hWritten.replays⟩
      exact hCached.initialized
  | resend key exe _ _ _ stage _ hPhase _ hStage =>
      refine hCached.extend rfl (by simp) rfl rfl (Or.inr ?_)
      rcases hStage with ⟨_, rfl⟩ | ⟨_, rfl⟩ <;> rfl
  | skip line exe _ _ _ _ _ hPhase _ _ =>
      exact hCached.extend rfl (by simp) rfl rfl (Or.inl rfl)
  | replayInitialized line exe _ _ _ _ _ initialized hPhase _ =>
      have hHeard : (s.hear line).Cached codec :=
        hCached.extend rfl (by simp) rfl rfl (Or.inl rfl)
      have hLine : codec.isInitialized initialized.line = true :=
        hCached.stage initialized (by rw [hPhase]; rfl)
      exact (hHeard.replay (Or.inr hLine)).same rfl rfl rfl
        (Or.inr rfl)
  | fail e _ _ _ _ u t hPhase _ hBroken hFailed =>
      exact (hCached.broken hBroken).failed hFailed
  | adopt e _ _ _ _ _ _ u hPhase hAdopted =>
      exact (hCached.adopted hAdopted).adopt
  | flushLine line queue hPhase _ =>
      exact hCached.extend rfl (by simp) rfl rfl (Or.inr rfl)
  | forwardLine line _ =>
      have hReceive : (s.receive codec line).Cached codec :=
        hCached.receive
      exact hReceive.extend rfl (by simp) rfl rfl (Or.inr rfl)
  | waiter _ => exact hCached.same rfl rfl rfl (Or.inr rfl)
  | loss t _ hPump hLost => exact hCached.takeHeld.lost hLost
  | awaitLine line hPhase =>
      have hReceive : (s.receive codec line).Cached codec :=
        hCached.receive
      unfold awaitLine
      split
      · exact hReceive.same rfl rfl rfl (Or.inr rfl)
      · exact hReceive

/-
  So every replayed line is the cached one, in every state
  that is reached.
-/
theorem of_reachable
    (hReach : (machine setup codec).Reachable s) :
    s.Cached codec := by
  refine invariant_of_reachable ?_
    (fun _ _ _ hCached hMove => hCached.pumpMove hMove)
    (fun _ _ _ hCached hMove => hCached.mainMove hMove) hReach
  constructor
  case replays => simp [start]
  all_goals exact fun l h => by cases h

end Cached

------------------------------------------------------------
-- The Queue
------------------------------------------------------------

/- Lines are forwarded only once the queue is empty. -/
def Flushed (s : Session Line Value) : Prop :=
  s.phase = .forward ∨ s.phase = .forwarding → s.queue = []

namespace Flushed

/-
  Only while a line is being forwarded can another be
  waiting to be written.
-/
theorem of_phase
    (hForward : s.phase ≠ .forward)
    (hForwarding : s.phase ≠ .forwarding) :
    s.Flushed := by
  rintro (h | h)
  · exact absurd h hForward
  · exact absurd h hForwarding

/- In a round nothing waits. -/
theorem of_round
    {after : Option AfterHello}
    {attempts : Nat}
    {early : Bool}
    {stage : Stage Line Value}
    (hPhase : s.phase = .round after attempts early stage) :
    s.Flushed :=
  of_phase (by simp [hPhase]) (by simp [hPhase])

/- The pump writes nothing upstream. -/
theorem pumpMove
    (hFlushed : s.Flushed)
    (hMove : PumpMove codec s e t) :
    t.Flushed := by
  cases hMove <;> exact hFlushed

/-
  A line is written, or its connection is lost, before the
  loop goes on.
-/
theorem mainMove
    (hFlushed : s.Flushed)
    (hMove : MainMove codec s e t) :
    t.Flushed := by
  cases hMove with
  | hop e phase hHop =>
      cases hHop with
      | flushed _ hQueue => exact fun _ => hQueue
      | forwarding hPhase =>
          exact fun _ => hFlushed (Or.inr hPhase)
      | _ =>
          exact of_phase (fun h => by cases h) (fun h => by cases h)
  | wait line _ _ _ _ hPhase =>
      unfold waitLine
      split <;> exact of_round hPhase
  | skip line exe _ _ _ _ _ hPhase _ _ => exact of_round hPhase
  | fail e _ _ _ _ u t _ _ _ hFailed =>
      cases hFailed <;>
        exact of_phase (fun h => by cases h) (fun h => by cases h)
  | adopt e _ _ _ _ _ _ u _ _ =>
      rcases u.adopt_eq codec _ _ _ _ with
        ⟨_, _, _, hEq, _⟩
      rw [hEq]
      exact of_phase (fun h => by cases h) (fun h => by cases h)
  | forwardLine line hPhase =>
      exact fun _ => hFlushed (Or.inl hPhase)
  | loss t _ _ hLost =>
      cases hLost with
      | now kept _ hUsed =>
          rw [reconnectNow_eq _ _ hUsed]
          exact of_phase (fun h => by cases h) (fun h => by cases h)
      | _ =>
          exact of_phase (fun h => by cases h) (fun h => by cases h)
  | awaitLine line hPhase =>
      unfold awaitLine
      split
      · exact of_phase (fun h => by cases h) (fun h => by cases h)
      · refine of_phase (fun h => ?_) (fun h => ?_) <;>
          exact absurd (hPhase.symm.trans h) (by simp)
  | _ =>
      exact of_phase (fun h => by cases h) (fun h => by cases h)

/- No line is overtaken, in every state of a session. -/
theorem of_reachable
    (hReach : (machine setup codec).Reachable s) :
    s.Flushed :=
  invariant_of_reachable
    (of_phase (fun h => by cases h) (fun h => by cases h))
    (fun _ _ _ hFlushed hMove => hFlushed.pumpMove hMove)
    (fun _ _ _ hFlushed hMove => hFlushed.mainMove hMove) hReach

end Flushed

end Session

------------------------------------------------------------
-- The Order of Writes
------------------------------------------------------------

/-
  A request has been answered with an error since the line of
  this number was received.
-/
def Overtaken
    (number : Nat)
    (log : List (Effect Line Value)) : Prop :=
  ∃ before id message after,
    log = before ++ .error id message :: after ∧
      ∃ line kind kept,
        Effect.received line kind kept ∈ before ∧
          line.number = number

/- Lines of the client are written in order. -/
def InOrder
    (before : List (Effect Line Value))
    (e : Effect Line Value) : Prop :=
  ∀ c l, e = .written c .client l →
    (∀ c' l', Effect.written c' .client l' ∈ before →
      l'.number < l.number) ∧
      ¬ Overtaken l.number before

/- The lines of the client, unless they are replayed. -/
def Effect.delivers : Effect Line Value → Bool
| .received _ _ _ => true
| .written _ .client _ => true
| .written _ .resend _ => true
| _ => false

/- A line that is overtaken was received. -/
theorem Overtaken.received
    {number : Nat}
    {log : List (Effect Line Value)}
    (hOvertaken : Overtaken number log) :
    ∃ line kind kept, Effect.received line kind kept ∈ log ∧
      line.number = number := by
  rcases hOvertaken with
    ⟨before, id, message, after, rfl, line, kind, kept, hMem,
      hNumber⟩
  exact ⟨line, kind, kept,
    List.mem_append_left _ hMem, hNumber⟩

/-
  Only an error ends a request, so other effects overtake
  nothing.
-/
theorem Overtaken.of_append
    {number : Nat}
    {log es : List (Effect Line Value)}
    (hEs : ∀ id message, Effect.error id message ∉ es)
    (hOvertaken : Overtaken number (log ++ es)) :
    Overtaken number log := by
  rcases hOvertaken with
    ⟨before, id, message, after, hLog, hReceived⟩
  rcases List.append_eq_append_iff.mp hLog with
    ⟨rest, hBefore, hRest⟩ | ⟨rest, hBefore, hRest⟩
  · exact absurd (hRest ▸ by simp) (hEs id message)
  · cases rest with
    | nil =>
        rw [List.nil_append] at hRest
        exact absurd (hRest ▸ List.mem_cons_self)
          (hEs id message)
    | cons e rest =>
        rw [List.cons_append, List.cons.injEq] at hRest
        rcases hRest with ⟨rfl, _⟩
        exact ⟨before, id, message, rest, hBefore, hReceived⟩

namespace Session

variable {setup : Setup} {codec : Codec Line Value}
variable {s t u : Session Line Value} {e : Event Line}

/-
  Each client line with its number, and where it can still
  be written.
-/
structure Delivered (s : Session Line Value) : Prop where
  received :
    ∀ l kind kept, Effect.received l kind kept ∈ s.log →
      l.number < s.received
  flagged :
    ∀ l kind kept kind' kept',
      Effect.received l kind kept ∈ s.log →
        Effect.received l kind' kept' ∈ s.log → kept = kept'
  kept :
    ∀ k, s.tracker.keptFirst = some k →
      ∃ kind, Effect.received k.line kind true ∈ s.log
  resent :
    ∀ c l, Effect.written c .resend l ∈ s.log →
      ∃ kind, Effect.received l kind true ∈ s.log
  sorted : s.queue.Pairwise (fun l l' => l.number < l'.number)
  queued : ∀ l ∈ s.queue, l.number < s.received
  written :
    ∀ c l, Effect.written c .client l ∈ s.log →
      l.number < s.received ∧ ∀ l' ∈ s.queue, l.number < l'.number
  overtaken :
    ∀ n, Overtaken n s.log → ∀ l ∈ s.queue, n < l.number
  ordered : History.Holds InOrder s.log

namespace Delivered

/- Effects that deliver nothing add no delivery. -/
theorem mem_of_delivers
    {log es : List (Effect Line Value)}
    {e : Effect Line Value}
    (hMem : e ∈ log ++ es)
    (hEs : ∀ e ∈ es, e.delivers = false)
    (hDelivers : e.delivers = true) :
    e ∈ log := by
  rcases List.mem_append.mp hMem with hMem | hMem
  · exact hMem
  · exact absurd (hDelivers.symm.trans (hEs e hMem)) (by simp)

/-
  The step of the invariant, for a step that delivers
  nothing.
-/
theorem extend
    {es : List (Effect Line Value)}
    (hDelivered : s.Delivered)
    (hLog : t.log = s.log ++ es)
    (hEs : ∀ e ∈ es, e.delivers = false)
    (hErrors :
      t.queue = [] ∨ ∀ id message, Effect.error id message ∉ es)
    (hReceived : t.received = s.received)
    (hQueue : t.queue.Sublist s.queue)
    (hKept :
      t.tracker.keptFirst = s.tracker.keptFirst ∨
        t.tracker.keptFirst = none) :
    t.Delivered := by
  have hOld : ∀ e ∈ t.log, e.delivers = true → e ∈ s.log := by
    intro e hMem
    rw [hLog] at hMem
    exact mem_of_delivers hMem hEs
  have hNew : ∀ e ∈ s.log, e ∈ t.log := by
    intro e hMem
    rw [hLog]
    exact List.mem_append_left _ hMem
  have hSub : ∀ l ∈ t.queue, l ∈ s.queue :=
    fun l hMem => hQueue.subset hMem
  constructor
  case received =>
    intro l kind kept hMem
    rw [hReceived]
    exact hDelivered.received l kind kept (hOld _ hMem rfl)
  case flagged =>
    intro l kind kept kind' kept' hMem hMem'
    exact hDelivered.flagged l kind kept kind' kept'
      (hOld _ hMem rfl) (hOld _ hMem' rfl)
  case kept =>
    intro k hSome
    rcases hKept with hKept | hKept <;> rw [hKept] at hSome
    · rcases hDelivered.kept k hSome with ⟨kind, hMem⟩
      exact ⟨kind, hNew _ hMem⟩
    · cases hSome
  case resent =>
    intro c l hMem
    rcases hDelivered.resent c l (hOld _ hMem rfl) with
      ⟨kind, hMem⟩
    exact ⟨kind, hNew _ hMem⟩
  case sorted => exact hDelivered.sorted.sublist hQueue
  case queued =>
    intro l hMem
    rw [hReceived]
    exact hDelivered.queued l (hSub l hMem)
  case written =>
    intro c l hMem
    rw [hReceived]
    have hOldWritten := hDelivered.written c l (hOld _ hMem rfl)
    exact ⟨hOldWritten.1,
      fun l' hMem' => hOldWritten.2 l' (hSub l' hMem')⟩
  case overtaken =>
    intro n hOvertaken l hMem
    rw [hLog] at hOvertaken
    rcases hErrors with hEmpty | hErrors
    · rw [hEmpty] at hMem
      cases hMem
    · exact hDelivered.overtaken n (hOvertaken.of_append hErrors)
        l (hSub l hMem)
  case ordered =>
    rw [hLog]
    refine hDelivered.ordered.append (fun e hMem before c l h => ?_)
    rw [h] at hMem
    cases hEs _ hMem

/- A step that logs nothing is the plainest of these. -/
theorem same
    (hDelivered : s.Delivered)
    (hLog : t.log = s.log)
    (hReceived : t.received = s.received)
    (hQueue : t.queue.Sublist s.queue)
    (hKept :
      t.tracker.keptFirst = s.tracker.keptFirst ∨
        t.tracker.keptFirst = none) :
    t.Delivered :=
  hDelivered.extend (hLog.trans (List.append_nil _).symm)
    (by simp) (Or.inr (by simp)) hReceived hQueue hKept

/-
  Nor does a line of the daemon deliver one of the client.
-/
theorem onDaemonLine
    {line : Line}
    (hDelivered : s.Delivered) :
    (s.onDaemonLine codec line).Delivered := by
  rcases Tracker.onDaemonLine_eq codec s.tracker line with
    ⟨_, _, kept, hEq, hKept⟩
  unfold Session.onDaemonLine
  rw [hEq]
  refine hDelivered.same rfl rfl (.refl _) ?_
  rcases hKept with ⟨_, rfl⟩ | ⟨_, rfl⟩ | ⟨_, rfl⟩
  · exact Or.inl rfl
  · exact Or.inr rfl
  · exact Or.inr rfl

/- The line that is received has the next number. -/
theorem receive
    {line : Line}
    (hDelivered : s.Delivered) :
    (s.receive codec line).Delivered := by
  rcases Tracker.onClientLine_eq codec s.tracker
    ⟨s.received, line⟩ with
    ⟨_, _, _, kept, _, hEq, _, _, hKept, _⟩
  have hTracker :
      (s.receive codec line).tracker.keptFirst = kept :=
    congrArg Tracker.keptFirst hEq
  have hNumber :
      ∀ l kind kept, Effect.received l kind kept ∈ s.log →
        l.number ≠ s.received :=
    fun l kind kept hMem =>
      Nat.ne_of_lt (hDelivered.received l kind kept hMem)
  constructor
  case received =>
    intro l kind kept hMem
    rcases List.mem_append.mp hMem with hMem | hMem
    · exact Nat.lt_succ_of_lt
        (hDelivered.received l kind kept hMem)
    · cases List.mem_singleton.mp hMem
      exact Nat.lt_succ_self _
  case flagged =>
    intro l kind kept kind' kept' hMem hMem'
    rcases List.mem_append.mp hMem with hMem | hMem <;>
      rcases List.mem_append.mp hMem' with hMem' | hMem'
    · exact hDelivered.flagged l kind kept kind' kept' hMem hMem'
    · cases List.mem_singleton.mp hMem'
      exact absurd rfl (hNumber _ _ _ hMem)
    · cases List.mem_singleton.mp hMem
      exact absurd rfl (hNumber _ _ _ hMem')
    · cases List.mem_singleton.mp hMem
      cases List.mem_singleton.mp hMem'
      rfl
  case kept =>
    intro k hSome
    rw [hTracker] at hSome
    rcases hKept with ⟨rfl, _⟩ | ⟨id, method, _, _, _, _, _, rfl⟩
    · rcases hDelivered.kept k hSome with ⟨kind, hMem⟩
      exact ⟨kind, List.mem_append_left _ hMem⟩
    · have hKeeps :
          (s.clientLine codec line).1.keeps s.received = true := by
        unfold Tracker.keeps clientLine
        rw [congrArg Tracker.keptFirst hEq]
        simp
      cases hSome
      refine ⟨(s.clientLine codec line).2,
        List.mem_append_right _ ?_⟩
      rw [List.mem_singleton, hKeeps]
  case resent =>
    intro c l hMem
    rcases List.mem_append.mp hMem with hMem | hMem
    · rcases hDelivered.resent c l hMem with ⟨kind, hMem⟩
      exact ⟨kind, List.mem_append_left _ hMem⟩
    · simp at hMem
  case sorted => exact hDelivered.sorted
  case queued =>
    exact fun l hMem => Nat.lt_succ_of_lt
      (hDelivered.queued l hMem)
  case written =>
    intro c l hMem
    rcases List.mem_append.mp hMem with hMem | hMem
    · have hOld := hDelivered.written c l hMem
      exact ⟨Nat.lt_succ_of_lt hOld.1, hOld.2⟩
    · simp at hMem
  case overtaken =>
    intro n hOvertaken
    exact hDelivered.overtaken n (hOvertaken.of_append (by simp))
  case ordered =>
    exact hDelivered.ordered.snoc (fun c l h => by cases h)

/- The line that has been received last is queued. -/
theorem push
    {line : Line}
    (hDelivered : s.Delivered) :
    ((s.receive codec line).push ⟨s.received, line⟩).Delivered := by
  have hReceive : (s.receive codec line).Delivered :=
    hDelivered.receive
  have hBelow :
      ∀ l ∈ s.queue ++ [⟨s.received, line⟩], ∀ n,
        n < s.received → (∀ l' ∈ s.queue, n < l'.number) →
          n < l.number := by
    intro l hMem n hReceived hQueue
    rcases List.mem_append.mp hMem with hMem | hMem
    · exact hQueue l hMem
    · cases List.mem_singleton.mp hMem
      exact hReceived
  constructor
  case received => exact hReceive.received
  case flagged => exact hReceive.flagged
  case kept => exact hReceive.kept
  case resent => exact hReceive.resent
  case sorted =>
    refine List.pairwise_append.mpr
      ⟨hDelivered.sorted, List.pairwise_singleton _ _, ?_⟩
    intro l hMem l' hMem'
    cases List.mem_singleton.mp hMem'
    exact hDelivered.queued l hMem
  case queued =>
    intro l hMem
    rcases List.mem_append.mp hMem with hMem | hMem
    · exact hReceive.queued l hMem
    · cases List.mem_singleton.mp hMem
      exact Nat.lt_succ_self _
  case written =>
    intro c l hMem
    refine ⟨(hReceive.written c l hMem).1, fun l' hMem' => ?_⟩
    rcases List.mem_append.mp hMem with hMem | hMem
    · have hOld := hDelivered.written c l hMem
      exact hBelow l' hMem' _ hOld.1 hOld.2
    · simp at hMem
  case overtaken =>
    intro n hOvertaken l hMem
    have hOld := hOvertaken.of_append (by simp)
    rcases hOld.received with ⟨l', kind, kept, hMem', rfl⟩
    exact hBelow l hMem _
      (hDelivered.received l' kind kept hMem')
      (hDelivered.overtaken _ hOld)
  case ordered => exact hReceive.ordered

/-
  A line of the client is newer than all writes so far, and
  what is sent again is a request that was kept.
-/
theorem write
    (origin : Origin)
    (line : Numbered Line)
    (hDelivered : s.Delivered)
    (hClient :
      origin = .client →
        line.number < s.received ∧
          (∀ l ∈ s.queue, line.number < l.number) ∧
          (∀ c l, Effect.written c .client l ∈ s.log →
            l.number < line.number) ∧
          ¬ Overtaken line.number s.log)
    (hResend :
      origin = .resend →
        ∃ kind, Effect.received line kind true ∈ s.log) :
    (s.write origin line).Delivered := by
  have hOld :
      ∀ l kind kept,
        Effect.received l kind kept ∈ (s.write origin line).log →
          Effect.received l kind kept ∈ s.log := by
    intro l kind kept hMem
    rcases List.mem_append.mp hMem with hMem | hMem
    · exact hMem
    · cases List.mem_singleton.mp hMem
  constructor
  case received =>
    exact fun l kind kept hMem =>
      hDelivered.received l kind kept (hOld _ _ _ hMem)
  case flagged =>
    exact fun l _ _ _ _ hMem hMem' =>
      hDelivered.flagged l _ _ _ _ (hOld _ _ _ hMem)
        (hOld _ _ _ hMem')
  case kept =>
    intro k hSome
    rcases hDelivered.kept k hSome with ⟨kind, hMem⟩
    exact ⟨kind, List.mem_append_left _ hMem⟩
  case resent =>
    intro c l hMem
    have hReceived :
        ∃ kind, Effect.received l kind true ∈ s.log := by
      rcases List.mem_append.mp hMem with hMem | hMem
      · exact hDelivered.resent c l hMem
      · cases List.mem_singleton.mp hMem
        exact hResend rfl
    rcases hReceived with ⟨kind, hReceived⟩
    exact ⟨kind, List.mem_append_left _ hReceived⟩
  case sorted => exact hDelivered.sorted
  case queued => exact hDelivered.queued
  case written =>
    intro c l hMem
    rcases List.mem_append.mp hMem with hMem | hMem
    · exact hDelivered.written c l hMem
    · cases List.mem_singleton.mp hMem
      exact ⟨(hClient rfl).1, (hClient rfl).2.1⟩
  case overtaken =>
    exact fun n h =>
      hDelivered.overtaken n (h.of_append (by simp))
  case ordered =>
    refine hDelivered.ordered.snoc (fun c l h => ?_)
    cases h
    exact (hClient rfl).2.2

/- The pump delivers nothing upstream. -/
theorem pumpMove
    (hDelivered : s.Delivered)
    (hMove : PumpMove codec s e t) :
    t.Delivered := by
  cases hMove with
  | «show» line _ =>
      have hShown : (s.onDaemonLine codec line).Delivered :=
        hDelivered.onDaemonLine
      exact hShown.extend rfl (by simp [Effect.delivers])
        (Or.inr (by simp)) rfl (.refl _) (Or.inl rfl)
  | read line _ | send line _ =>
      exact hDelivered.extend rfl (by simp [Effect.delivers])
        (Or.inr (by simp)) rfl (.refl _) (Or.inl rfl)
  | _ => exact hDelivered.same rfl rfl (.refl _) (Or.inl rfl)

section Round

variable {after : Option AfterHello}
variable {attempts : Nat}
variable {stage : Stage Line Value}

/- The hello is the proxy's own. -/
theorem hear
    {line : Line}
    (hDelivered : s.Delivered) :
    (s.hear line).Delivered :=
  hDelivered.extend rfl (by simp [Effect.delivers])
    (Or.inr (by simp)) rfl (.refl _) (Or.inl rfl)

/-
  What a broken attempt delivered are replays, which have no
  number of the client's.
-/
theorem broken
    (hDelivered : s.Delivered)
    (hBroken : Broken s after stage u) :
    u.Delivered := by
  cases hBroken with
  | answered line _ => exact hDelivered.hear
  | _ => exact hDelivered.same rfl rfl (.refl _) (Or.inl rfl)

/- A failed attempt loses the connection, not the queue. -/
theorem failed
    (hDelivered : u.Delivered)
    (hFailed : Failed u after attempts t) :
    t.Delivered := by
  cases hFailed with
  | retry _ _ =>
      exact hDelivered.same rfl rfl (.refl _) (Or.inl rfl)
  | gaveUp _ =>
      exact hDelivered.extend rfl (by simp [Effect.delivers])
        (Or.inr (by simp)) rfl (.refl _) (Or.inl rfl)
  | pending message _ _ =>
      exact hDelivered.extend rfl (by simp [Effect.delivers])
        (Or.inl rfl) rfl (List.nil_sublist _) (Or.inl rfl)

/-
  An adopted attempt may send the kept request again, under
  its old number.
-/
theorem adopted
    {key : String}
    {response : Option Line}
    (hDelivered : s.Delivered)
    (hAdopted : Adopted codec s after stage key response u) :
    u.Delivered := by
  cases hAdopted with
  | hello _ _ =>
      exact hDelivered.same rfl rfl (.refl _) (Or.inl rfl)
  | replayed | resent => exact hDelivered
  | _ => exact hDelivered.hear

/- After which the queue is as it was. -/
theorem adopt
    {key : String}
    {response : Option Line}
    (hDelivered : u.Delivered) :
    (u.adopt codec after attempts key response).Delivered := by
  rcases u.adopt_eq codec after attempts key
    response with ⟨es, tracker, _, hEq, hEs, hTracker, _⟩
  have hShown : (u.tracking tracker).Delivered := by
    rcases hTracker with ⟨rfl, _⟩ | ⟨line, _, _, rfl, _⟩
    · exact hDelivered
    · exact hDelivered.onDaemonLine
  rw [hEq]
  refine hShown.extend rfl (fun e hMem => ?_)
    (Or.inr fun id message hMem => ?_) rfl (.refl _)
    (Or.inl rfl)
  · rcases hEs e hMem with rfl | ⟨_, _, _, rfl⟩ <;> rfl
  · rcases hEs _ hMem with h | ⟨_, _, _, h⟩ <;> cases h

end Round

/- Showing what is held delivers nothing upstream. -/
theorem takeHeld
    (hDelivered : s.Delivered) :
    (s.takeHeld codec).Delivered := by
  rcases s.takeHeld_eq codec with
    ⟨es, tracker, hEq, hHeld⟩
  rw [hEq]
  rcases hHeld with ⟨_, rfl, rfl⟩ | ⟨line, _, rfl, rfl⟩
  · exact hDelivered.same (List.append_nil _) rfl (.refl _)
      (Or.inl rfl)
  · have hShown : (s.onDaemonLine codec line).Delivered :=
      hDelivered.onDaemonLine
    exact hShown.extend rfl (by simp [Effect.delivers])
      (Or.inr (by simp)) rfl (.refl _) (Or.inl rfl)

/- The queue is lost before the errors are sent. -/
theorem lost
    (hDelivered : u.Delivered)
    (hLost : Lost codec u t) :
    t.Delivered := by
  cases hLost with
  | wait _ =>
      exact hDelivered.extend rfl (by simp [Effect.delivers])
        (Or.inl rfl) rfl (List.nil_sublist _) (Or.inl rfl)
  | exit kept _ _ =>
      have hAnswered :
          (u.linkDown.answer
            (u.linkDown.tracker.takeInFlightExcept codec kept.id)
            restartMessage).Delivered :=
        hDelivered.extend rfl (by simp [Effect.delivers])
          (Or.inl rfl) rfl (List.nil_sublist _) (Or.inl rfl)
      exact hAnswered.extend rfl (by simp [Effect.delivers])
        (Or.inr (by simp)) rfl (.refl _) (Or.inl rfl)
  | now kept _ hUsed =>
      rw [reconnectNow_eq _ _ hUsed]
      exact hDelivered.extend rfl (by simp [Effect.delivers])
        (Or.inl rfl) rfl (List.nil_sublist _) (Or.inl rfl)

/-
  Case by case for the main loop: one delivery for each
  line.
-/
theorem mainMove
    (hDelivered : s.Delivered)
    (hFlushed : s.Flushed)
    (hMove : MainMove codec s e t) :
    t.Delivered := by
  cases hMove with
  | hop e phase _ | waiter _ =>
      exact hDelivered.same rfl rfl (.refl _) (Or.inl rfl)
  | close e _ | begin _ _ _ _ =>
      exact hDelivered.extend rfl (by simp [Effect.delivers])
        (Or.inr (by simp)) rfl (.refl _) (Or.inl rfl)
  | wait line _ _ _ _ _ =>
      unfold waitLine
      split
      · exact hDelivered.receive
      · exact hDelivered.push
  | replay key exe attempts early line id _ _ _ =>
      exact hDelivered.extend rfl (by simp [Effect.delivers])
        (Or.inr (by simp)) rfl (.refl _) (Or.inl rfl)
  | resend key exe after attempts early stage kept _ hKept _ =>
      have hConn :
          ({ s with conn := s.conn + 1 }).Delivered :=
        hDelivered.same rfl rfl (.refl _) (Or.inl rfl)
      have hWritten :=
        hConn.write .resend kept.line (fun h => by cases h)
          (fun _ => hDelivered.kept kept hKept)
      exact hWritten.same rfl rfl (.refl _) (Or.inl rfl)
  | skip line exe _ _ _ _ _ _ _ _ => exact hDelivered.hear
  | replayInitialized line exe _ _ _ _ _ initialized _ _ =>
      exact hDelivered.extend (List.append_assoc _ _ _)
        (by simp [Effect.delivers]) (Or.inr (by simp)) rfl
        (.refl _) (Or.inl rfl)
  | fail e _ _ _ _ u t _ _ hBroken hFailed =>
      exact (hDelivered.broken hBroken).failed hFailed
  | adopt e _ _ _ _ _ _ u _ hAdopted =>
      exact (hDelivered.adopted hAdopted).adopt
  | flushLine line queue _ hQueue =>
      have hSorted := hQueue ▸ hDelivered.sorted
      have hFirst : line ∈ s.queue := hQueue ▸ List.mem_cons_self
      have hRest : ({ s with queue := queue }).Delivered := by
        refine hDelivered.same rfl rfl ?_ (Or.inl rfl)
        rw [hQueue]
        exact List.sublist_cons_self _ _
      have hWritten := hRest.write .client line
        (fun _ => ⟨hDelivered.queued line hFirst,
          (List.pairwise_cons.mp hSorted).1,
          fun c l hMem =>
            (hDelivered.written c l hMem).2 line hFirst,
          fun h => absurd
            (hDelivered.overtaken _ h line hFirst)
            (Nat.lt_irrefl _)⟩)
        (fun h => by cases h)
      exact hWritten.same rfl rfl (.refl _) (Or.inl rfl)
  | forwardLine line hPhase =>
      have hReceive : (s.receive codec line).Delivered :=
        hDelivered.receive
      have hQueue : s.queue = [] := hFlushed (Or.inl hPhase)
      have hWritten := hReceive.write .client ⟨s.received, line⟩
        (fun _ => ⟨Nat.lt_succ_self _, ?_, ?_, ?_⟩)
        (fun h => by cases h)
      · exact hWritten.same rfl rfl (.refl _) (Or.inl rfl)
      · intro l hMem
        have hNone : l ∈ s.queue := hMem
        rw [hQueue] at hNone
        cases hNone
      · intro c l hMem
        rcases List.mem_append.mp hMem with hMem | hMem
        · exact (hDelivered.written c l hMem).1
        · simp at hMem
      · intro hOvertaken
        rcases (hOvertaken.of_append (by simp)).received with
          ⟨l, kind, kept, hMem, hNumber⟩
        have hOld := hDelivered.received l kind kept hMem
        rw [hNumber] at hOld
        exact Nat.lt_irrefl _ hOld
  | loss t _ _ hLost => exact hDelivered.takeHeld.lost hLost
  | awaitLine line _ =>
      unfold awaitLine
      split
      · have hPush :
            ((s.receive codec line).push
              ⟨s.received, line⟩).Delivered :=
          hDelivered.push
        exact hPush.same rfl rfl (.refl _) (Or.inl rfl)
      · exact hDelivered.receive

/- The account holds in every state of a session. -/
theorem of_reachable
    (hReach : (machine setup codec).Reachable s) :
    s.Delivered := by
  refine induction_of_reachable ?_
    (fun _ _ _ _ hDelivered hMove => hDelivered.pumpMove hMove)
    (fun _ _ _ hSource hDelivered hMove =>
      hDelivered.mainMove (.of_reachable hSource) hMove) hReach
  constructor
  case sorted => exact List.Pairwise.nil
  case ordered => exact .nil
  case overtaken => exact fun n _ l hMem => by cases hMem
  all_goals simp [start, Tracker.default]

end Delivered

end Session

------------------------------------------------------------
-- Delivery
------------------------------------------------------------

/-
  A request of the client that is no `initialize`, and that
  did not become the kept first request.
-/
def Plain
    (codec : Codec Line Value)
    (log : List (Effect Line Value))
    (l : Numbered Line) : Prop :=
  (∃ kind, Effect.received l kind false ∈ log) ∧
    ∃ id method, codec.request l.line = some (id, method) ∧
      method ≠ initializeMethod

/-
  Such a request is begun to be written once at most, in the
  order of the client, and not when its id has been answered
  with an error.
-/
structure WrittenOnce
    (codec : Codec Line Value)
    (log : List (Effect Line Value)) : Prop where
  once :
    ∀ l before c origin after, Plain codec log l →
      log = before ++ .written c origin l :: after →
        ∀ c' origin', Effect.written c' origin' l ∉ after
  inOrder :
    ∀ l l' before c origin c' origin' after,
      Plain codec log l → Plain codec log l' →
        log = before ++ .written c' origin' l' :: after →
          Effect.written c origin l ∈ before →
            l.number < l'.number
  answered :
    ∀ l id method id' message before after, Plain codec log l →
      codec.request l.line = some (id, method) →
        codec.idKey id' = codec.idKey id →
          log = before ++ .error id' message :: after →
            (∃ kind kept,
              Effect.received l kind kept ∈ before) →
              ∀ c origin, Effect.written c origin l ∉ after

namespace Session

variable {setup : Setup} {codec : Codec Line Value}
variable {s : Session Line Value}

/- Plain requests are not written again. -/
theorem origin_of_plain
    {l : Numbered Line}
    {c : Nat}
    {origin : Origin}
    (hCached : s.Cached codec)
    (hDelivered : s.Delivered)
    (hPlain : Plain codec s.log l)
    (hMem : Effect.written c origin l ∈ s.log) :
    origin = .client := by
  rcases hPlain with
    ⟨⟨kind, hReceived⟩, id, method, hRequest, hMethod⟩
  cases origin with
  | client => rfl
  | replay =>
      rcases hCached.replays c l hMem with
        ⟨id', hHandshake⟩ | hInitialized
      · rw [hRequest] at hHandshake
        cases hHandshake
        exact absurd rfl hMethod
      · rw [Codec.request_of_isInitialized hInitialized]
          at hRequest
        cases hRequest
  | resend =>
      rcases hDelivered.resent c l hMem with ⟨kind', hKept⟩
      have hFlag :=
        hDelivered.flagged l _ _ _ _ hReceived hKept
      cases hFlag

/- Any two writes of plain requests are in order. -/
theorem number_lt_of_written
    {l l' : Numbered Line}
    {before after : List (Effect Line Value)}
    {c c' : Nat}
    {origin origin' : Origin}
    (hCached : s.Cached codec)
    (hDelivered : s.Delivered)
    (hPlain : Plain codec s.log l)
    (hPlain' : Plain codec s.log l')
    (hLog : s.log = before ++ .written c' origin' l' :: after)
    (hMem : Effect.written c origin l ∈ before) :
    l.number < l'.number := by
  have hEarlier : Effect.written c origin l ∈ s.log := by
    rw [hLog]
    exact List.mem_append_left _ hMem
  have hLater : Effect.written c' origin' l' ∈ s.log := by
    rw [hLog]
    simp
  obtain rfl := origin_of_plain hCached hDelivered hPlain hEarlier
  obtain rfl := origin_of_plain hCached hDelivered hPlain' hLater
  exact (hDelivered.ordered _ _ _ hLog c' l' rfl).1 c l hMem

end Session

/-
  In every run of the proxy, whatever connections it loses and
  whatever attempts fail.
-/
theorem written_once
    {setup : Setup} {codec : Codec Line Value}
    {s : Session Line Value}
    (hReach : (machine setup codec).Reachable s) :
    WrittenOnce codec s.log := by
  have hCached : s.Cached codec :=
    Session.Cached.of_reachable hReach
  have hDelivered : s.Delivered :=
    Session.Delivered.of_reachable hReach
  constructor
  case once =>
    intro l before c origin after hPlain hLog c' origin' hMem
    rcases List.append_of_mem hMem with ⟨front, back, rfl⟩
    have hSplit :
        s.log =
          (before ++ .written c origin l :: front) ++
            .written c' origin' l :: back := by
      rw [hLog]
      simp
    have hFirst :
        Effect.written c origin l ∈
          before ++ .written c origin l :: front := by
      simp
    exact Nat.lt_irrefl _
      (Session.number_lt_of_written hCached hDelivered hPlain
        hPlain hSplit hFirst)
  case inOrder =>
    intro l l' before c origin c' origin' after hPlain hPlain'
      hLog hMem
    exact Session.number_lt_of_written hCached hDelivered hPlain
      hPlain' hLog hMem
  case answered =>
    intro l id method id' message before after hPlain _ _ hLog
      ⟨kind, kept, hReceived⟩ c origin hMem
    rcases List.append_of_mem hMem with ⟨front, back, rfl⟩
    have hWritten : Effect.written c origin l ∈ s.log := by
      rw [hLog]
      simp
    obtain rfl :=
      Session.origin_of_plain hCached hDelivered hPlain hWritten
    have hSplit :
        s.log =
          (before ++ .error id' message :: front) ++
            .written c .client l :: back := by
      rw [hLog]
      simp
    refine (hDelivered.ordered _ _ _ hSplit c l rfl).2 ?_
    exact ⟨before, id', message, front, rfl, l, kind, kept,
      hReceived, rfl⟩

/- The connection, the origin and the number of a write. -/
private def sent :
    Effect (Envelope String) String → Option (Nat × Origin × Nat)
| .written c origin l => some (c, origin, l.number)
| _ => none

/-
  A call that was written to a lost connection is answered
  with an error, and only the next one is written to the new
  connection, after the replay.
-/
theorem written_once_reconnected :
    ∃ s : Session (Envelope String) String,
      s.log.filterMap sent =
          [(1, .client, 0), (1, .client, 1), (2, .replay, 0),
            (2, .client, 2)] ∧
        WrittenOnce .members s.log := by
  rcases run_of_any .sample .members
    [.begin, .connected "k" ⟨true, none⟩, .step,
      .client (.call "0" "initialize"), .written,
      .read (.answer "0"), .credit true, .pump, .pump, .pump,
      .pump, .pump, .client (.call "1" "tools/call"), .written,
      .cut, .pump, .lost, .step,
      .client (.call "2" "tools/call"), .begin,
      .connected "k" ⟨true, none⟩, .written,
      .answer (.answer "0") ⟨true, none⟩, .step]
    (fun s => decide
      (s.log.filterMap sent =
        [(1, .client, 0), (1, .client, 1), (2, .replay, 0),
          (2, .client, 2)]))
    (by decide +kernel) with ⟨s, hReach, hTest⟩
  exact ⟨s, of_decide_eq_true hTest, written_once hReach⟩

end Proxy

end Ferrex
