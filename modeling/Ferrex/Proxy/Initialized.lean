import Ferrex.Proxy.Survival

/-
  The notification of an initialised client on connections
  that replay the handshake: it is sent once at most, and
  before the requests that follow it, unless an attempt begins
  its replay when an earlier one of the round has, and the
  notification has been queued in between.

  Main declarations:
    * `Session.Known`, `Session.Replaying`
    * `Session.Notified`
    * `Session.replaysQueued`, `undisturbed`
    * `initialized_once`
-/

------------------------------------------------------------
-- Lines of the Client
------------------------------------------------------------

namespace Ferrex

namespace Proxy

variable {Line Value : Type}

/- The client has sent this line, with this number. -/
def Received
    (log : List (Effect Line Value))
    (l : Numbered Line) : Prop :=
  ∃ kind kept, Effect.received l kind kept ∈ log

/- What has been received stays so. -/
theorem Received.append
    {log es : List (Effect Line Value)}
    {l : Numbered Line}
    (hReceived : Received log l) :
    Received (log ++ es) l := by
  rcases hReceived with ⟨kind, kept, hMem⟩
  exact ⟨kind, kept, List.mem_append_left _ hMem⟩

/- Effects of other kinds receive nothing. -/
theorem Received.of_append
    {log es : List (Effect Line Value)}
    {l : Numbered Line}
    (hEs : ∀ l kind kept, Effect.received l kind kept ∉ es)
    (hReceived : Received (log ++ es) l) :
    Received log l := by
  rcases hReceived with ⟨kind, kept, hMem⟩
  rcases List.mem_append.mp hMem with hMem | hMem
  · exact ⟨kind, kept, hMem⟩
  · exact absurd hMem (hEs l kind kept)

/- An attempt replays the handshake on its connection. -/
def Phase.replaying : Phase Line Value → Bool
| .round _ _ _ (.replayInitialize _ _ _) => true
| .round _ _ _ (.response _ _ _) => true
| .round _ _ _ (.replayInitialized _) => true
| _ => false

/- An attempt sends the kept request on its connection. -/
def Phase.resending : Phase Line Value → Bool
| .round _ _ _ (.resendInitialize _ _) => true
| .round _ _ _ (.resendResponse _ _) => true
| .round _ _ _ (.resend _) => true
| _ => false

/- The connection is used, or it is about to be adopted. -/
def Phase.live (phase : Phase Line Value) : Bool :=
  phase.replaying || phase.resending ||
    match phase with
    | .flush => true
    | .flushing => true
    | .forward => true
    | .forwarding => true
    | _ => false

namespace Session

variable {setup : Setup} {codec : Codec Line Value}
variable {s t u : Session Line Value} {e : Event Line}

/-
  All lines that the proxy has written, queued or cached are
  lines that it has received, on connections so far.
-/
structure Known
    (codec : Codec Line Value)
    (s : Session Line Value) : Prop where
  written :
    ∀ c origin l, Effect.written c origin l ∈ s.log →
      Received s.log l ∧ c ≤ s.conn
  queued : ∀ l ∈ s.queue, Received s.log l
  handshake :
    ∀ l, s.tracker.cachedInitialize = some l → Received s.log l
  cached :
    ∀ l, s.tracker.cachedInitialized = some l →
      Received s.log l
  caches :
    ∀ l, Received s.log l → codec.isInitialized l.line = true →
      s.tracker.cachedInitialized ≠ none
  stage :
    ∀ l, s.phase.initialized = some l → Received s.log l
  kept :
    ∀ k, s.tracker.keptFirst = some k →
      Received s.log k.line ∧ codec.request k.line.line ≠ none

namespace Known

/-
  The step of the invariant: nothing is received, and what
  is written was.
-/
theorem extend
    {es : List (Effect Line Value)}
    (hKnown : s.Known codec)
    (hLog : t.log = s.log ++ es)
    (hEs : ∀ l kind kept, Effect.received l kind kept ∉ es)
    (hWritten :
      ∀ c origin l, Effect.written c origin l ∈ es →
        Received s.log l ∧ c ≤ t.conn)
    (hConn : s.conn ≤ t.conn)
    (hQueue : t.queue.Sublist s.queue)
    (hInitialize :
      t.tracker.cachedInitialize = s.tracker.cachedInitialize)
    (hInitialized :
      t.tracker.cachedInitialized = s.tracker.cachedInitialized)
    (hKept :
      t.tracker.keptFirst = s.tracker.keptFirst ∨
        t.tracker.keptFirst = none)
    (hPhase :
      t.phase.initialized = s.phase.initialized ∨
        t.phase.initialized = none ∨
        t.phase.initialized = s.tracker.cachedInitialized) :
    t.Known codec := by
  have hNew : ∀ l, Received s.log l → Received t.log l := by
    intro l hReceived
    rw [hLog]
    exact hReceived.append
  constructor
  case written =>
    intro c origin l hMem
    rw [hLog] at hMem
    rcases List.mem_append.mp hMem with hMem | hMem
    · have hOld := hKnown.written c origin l hMem
      exact ⟨hNew l hOld.1, Nat.le_trans hOld.2 hConn⟩
    · have hOld := hWritten c origin l hMem
      exact ⟨hNew l hOld.1, hOld.2⟩
  case queued =>
    exact fun l hMem =>
      hNew l (hKnown.queued l (hQueue.subset hMem))
  case handshake =>
    intro l hSome
    exact hNew l (hKnown.handshake l (hInitialize ▸ hSome))
  case cached =>
    intro l hSome
    exact hNew l (hKnown.cached l (hInitialized ▸ hSome))
  case caches =>
    intro l hReceived hLine
    rw [hLog] at hReceived
    rw [hInitialized]
    exact hKnown.caches l (hReceived.of_append hEs) hLine
  case stage =>
    intro l hSome
    refine hNew l ?_
    rcases hPhase with hPhase | hPhase | hPhase <;>
      rw [hPhase] at hSome
    · exact hKnown.stage l hSome
    · cases hSome
    · exact hKnown.cached l hSome
  case kept =>
    intro k hSome
    rcases hKept with hKept | hKept <;> rw [hKept] at hSome
    · have hOld := hKnown.kept k hSome
      exact ⟨hNew _ hOld.1, hOld.2⟩
    · cases hSome

/- What writes nothing, and receives nothing. -/
theorem same
    {es : List (Effect Line Value)}
    (hKnown : s.Known codec)
    (hLog : t.log = s.log ++ es)
    (hEs : ∀ l kind kept, Effect.received l kind kept ∉ es)
    (hWritten : ∀ c origin l, Effect.written c origin l ∉ es)
    (hConn : s.conn ≤ t.conn)
    (hQueue : t.queue.Sublist s.queue)
    (hInitialize :
      t.tracker.cachedInitialize = s.tracker.cachedInitialize)
    (hInitialized :
      t.tracker.cachedInitialized = s.tracker.cachedInitialized)
    (hKept :
      t.tracker.keptFirst = s.tracker.keptFirst ∨
        t.tracker.keptFirst = none)
    (hPhase :
      t.phase.initialized = s.phase.initialized ∨
        t.phase.initialized = none) :
    t.Known codec :=
  hKnown.extend hLog hEs
    (fun c origin l hMem => absurd hMem (hWritten c origin l))
    hConn hQueue hInitialize hInitialized hKept
    (hPhase.imp_right Or.inl)

/- The daemon's lines bring no line of the client. -/
theorem onDaemonLine
    {line : Line}
    (hKnown : s.Known codec) :
    (s.onDaemonLine codec line).Known codec := by
  rcases Tracker.onDaemonLine_eq codec s.tracker line with
    ⟨_, _, kept, hEq, hKept⟩
  unfold Session.onDaemonLine
  rw [hEq]
  refine hKnown.same (List.append_nil _).symm (by simp) (by simp)
    (Nat.le_refl _) (.refl _) rfl rfl ?_ (Or.inl rfl)
  rcases hKept with ⟨_, rfl⟩ | ⟨_, rfl⟩ | ⟨_, rfl⟩
  · exact Or.inl rfl
  · exact Or.inr rfl
  · exact Or.inr rfl

/- A line is known from the moment it arrives. -/
theorem receive
    {line : Line}
    (hKnown : s.Known codec) :
    (s.receive codec line).Known codec := by
  rcases Tracker.onClientLine_eq codec s.tracker
    ⟨s.received, line⟩ with
    ⟨_, cached, initialized, kept, _, hEq, hCached, hInit, hKept,
      _⟩
  have hTracker : (s.receive codec line).tracker = _ := hEq
  have hNew :
      Received (s.receive codec line).log ⟨s.received, line⟩ :=
    ⟨_, _, List.mem_append_right _ List.mem_cons_self⟩
  have hOld :
      ∀ l, Received s.log l →
        Received (s.receive codec line).log l :=
    fun l hReceived => hReceived.append
  constructor
  case written =>
    intro c origin l hMem
    rcases List.mem_append.mp hMem with hMem | hMem
    · have h := hKnown.written c origin l hMem
      exact ⟨hOld l h.1, h.2⟩
    · simp at hMem
  case queued =>
    exact fun l hMem => hOld l (hKnown.queued l hMem)
  case handshake =>
    intro l hSome
    rw [hTracker] at hSome
    rcases hCached with rfl | ⟨_, _, rfl⟩
    · exact hOld l (hKnown.handshake l hSome)
    · cases hSome
      exact hNew
  case cached =>
    intro l hSome
    rw [hTracker] at hSome
    rcases hInit with ⟨_, rfl⟩ | ⟨_, rfl⟩
    · exact hOld l (hKnown.cached l hSome)
    · cases hSome
      exact hNew
  case caches =>
    intro l hReceived hLine
    rw [hTracker]
    rcases hInit with ⟨hOther, rfl⟩ | ⟨_, rfl⟩
    · rcases hReceived with ⟨kind, kept, hMem⟩
      rcases List.mem_append.mp hMem with hMem | hMem
      · exact hKnown.caches l ⟨kind, kept, hMem⟩ hLine
      · cases List.mem_singleton.mp hMem
        rw [hOther] at hLine
        cases hLine
    · simp
  case stage =>
    exact fun l hSome => hOld l (hKnown.stage l hSome)
  case kept =>
    intro k hSome
    rw [hTracker] at hSome
    rcases hKept with
      ⟨rfl, _⟩ | ⟨id, method, hRequest, _, _, _, _, rfl⟩
    · have h := hKnown.kept k hSome
      exact ⟨hOld _ h.1, h.2⟩
    · cases hSome
      exact ⟨hNew, by rw [hRequest]; simp⟩

/- The pump has no line of the client. -/
theorem pumpMove
    (hKnown : s.Known codec)
    (hMove : PumpMove codec s e t) :
    t.Known codec := by
  cases hMove with
  | «show» line _ =>
      have hShown : (s.onDaemonLine codec line).Known codec :=
        hKnown.onDaemonLine
      exact hShown.same rfl (by simp) (by simp) (Nat.le_refl _)
        (.refl _) rfl rfl (Or.inl rfl) (Or.inl rfl)
  | read line _ | send line _ =>
      exact hKnown.same rfl (by simp) (by simp) (Nat.le_refl _)
        (.refl _) rfl rfl (Or.inl rfl) (Or.inl rfl)
  | _ =>
      exact hKnown.same (List.append_nil _).symm (by simp)
        (by simp) (Nat.le_refl _) (.refl _) rfl rfl (Or.inl rfl)
        (Or.inl rfl)

section Round

variable {after : Option AfterHello}
variable {attempts : Nat}
variable {stage : Stage Line Value}

/- What is heard in a handshake is the daemon's. -/
theorem hear
    {line : Line}
    (hKnown : s.Known codec) :
    (s.hear line).Known codec :=
  hKnown.same rfl (by simp) (by simp) (Nat.le_refl _) (.refl _)
    rfl rfl (Or.inl rfl) (Or.inl rfl)

/- A new connection has been written nothing. -/
theorem newConn
    (hKnown : s.Known codec) :
    ({ s with conn := s.conn + 1 }).Known codec :=
  hKnown.same (List.append_nil _).symm (by simp) (by simp)
    (Nat.le_succ _) (.refl _) rfl rfl (Or.inl rfl) (Or.inl rfl)

/-
  A broken attempt has written cached lines, on a connection
  of its own.
-/
theorem broken
    (hKnown : s.Known codec)
    (hBroken : Broken s after stage u) :
    u.Known codec := by
  cases hBroken with
  | failed => exact hKnown
  | hello _ => exact hKnown.newConn
  | replaying _ _ =>
      exact hKnown.same (List.append_nil _).symm (by simp)
        (by simp) (Nat.le_succ _) (.refl _) rfl rfl (Or.inl rfl)
        (Or.inl rfl)
  | answered line _ => exact hKnown.hear

/- A failed one writes nothing more. -/
theorem failed
    (hKnown : u.Known codec)
    (hFailed : Failed u after attempts t) :
    t.Known codec := by
  cases hFailed with
  | retry _ _ =>
      exact hKnown.same (List.append_nil _).symm (by simp)
        (by simp) (Nat.le_refl _) (.refl _) rfl rfl (Or.inl rfl)
        (Or.inr rfl)
  | gaveUp _ =>
      exact hKnown.same rfl (by simp) (by simp) (Nat.le_refl _)
        (.refl _) rfl rfl (Or.inl rfl) (Or.inr rfl)
  | pending message _ _ =>
      exact hKnown.same rfl (by simp) (by simp) (Nat.le_refl _)
        (List.nil_sublist _) rfl rfl (Or.inl rfl) (Or.inr rfl)

/-
  An adopted attempt writes the cached handshake or the kept
  request.
-/
theorem adopted
    {key : String}
    {response : Option Line}
    (hKnown : s.Known codec)
    (hAdopted : Adopted codec s after stage key response u) :
    u.Known codec := by
  cases hAdopted with
  | hello _ _ => exact hKnown.newConn
  | replayed | resent => exact hKnown
  | _ => exact hKnown.hear

/- Adoption moves to the flush of the queue. -/
theorem adopt
    {key : String}
    {response : Option Line}
    (hKnown : u.Known codec) :
    (u.adopt codec after attempts key response).Known codec := by
  rcases u.adopt_eq codec after attempts key response with
    ⟨es, tracker, _, hEq, hEs, hTracker, _⟩
  have hShown : (u.tracking tracker).Known codec := by
    rcases hTracker with ⟨rfl, _⟩ | ⟨line, _, _, rfl, _⟩
    · exact hKnown
    · exact hKnown.onDaemonLine
  rw [hEq]
  refine hShown.same rfl (fun _ _ _ hMem => ?_)
    (fun _ _ _ hMem => ?_) (Nat.le_refl _) (.refl _) rfl rfl
    (Or.inl rfl) (Or.inr rfl) <;>
      rcases hEs _ hMem with h | ⟨_, _, _, h⟩ <;> cases h

end Round

/- What was held is a line of the daemon. -/
theorem takeHeld
    (hKnown : s.Known codec) :
    (s.takeHeld codec).Known codec := by
  rcases s.takeHeld_eq codec with ⟨es, tracker, hEq, hHeld⟩
  rw [hEq]
  rcases hHeld with ⟨_, rfl, rfl⟩ | ⟨line, _, rfl, rfl⟩
  · exact hKnown.same rfl (by simp) (by simp) (Nat.le_refl _)
      (.refl _) rfl rfl (Or.inl rfl) (Or.inl rfl)
  · have hShown : (s.onDaemonLine codec line).Known codec :=
      hKnown.onDaemonLine
    exact hShown.same rfl (by simp) (by simp) (Nat.le_refl _)
      (.refl _) rfl rfl (Or.inl rfl) (Or.inl rfl)

/- A loss writes nothing. -/
theorem lost
    (hKnown : u.Known codec)
    (hLost : Lost codec u t) :
    t.Known codec := by
  cases hLost with
  | wait _ =>
      exact hKnown.same rfl (by simp) (by simp) (Nat.le_refl _)
        (List.nil_sublist _) rfl rfl (Or.inl rfl) (Or.inr rfl)
  | exit kept _ _ =>
      exact hKnown.same (List.append_assoc _ _ _) (by simp)
        (by simp) (Nat.le_refl _) (List.nil_sublist _) rfl rfl
        (Or.inl rfl) (Or.inr rfl)
  | now kept _ hUsed =>
      rw [reconnectNow_eq _ _ hUsed]
      exact hKnown.same rfl (by simp) (by simp) (Nat.le_refl _)
        (List.nil_sublist _) rfl rfl (Or.inl rfl) (Or.inr rfl)

/- The line that is received is queued. -/
theorem push
    {line : Line}
    (hKnown : s.Known codec) :
    ((s.receive codec line).push
      ⟨s.received, line⟩).Known codec := by
  have hReceive : (s.receive codec line).Known codec :=
    hKnown.receive
  refine ⟨hReceive.written, fun l hMem => ?_, hReceive.handshake,
    hReceive.cached, hReceive.caches, hReceive.stage,
    hReceive.kept⟩
  rcases List.mem_append.mp hMem with hMem | hMem
  · exact hReceive.queued l hMem
  · cases List.mem_singleton.mp hMem
    exact ⟨_, _, List.mem_append_right _ List.mem_cons_self⟩

/-
  Each move of the main loop writes what it has received.
-/
theorem mainMove
    (hKnown : s.Known codec)
    (hMove : MainMove codec s e t) :
    t.Known codec := by
  cases hMove with
  | hop e phase hHop =>
      refine hKnown.same (List.append_nil _).symm (by simp)
        (by simp) (Nat.le_refl _) (.refl _) rfl rfl (Or.inl rfl)
        ?_
      cases hHop with
      | replayed _ _ _ _ _ _ hPhase =>
          rw [hPhase]
          exact Or.inl rfl
      | _ => exact Or.inr rfl
  | close e _ | begin _ _ _ _ =>
      exact hKnown.same rfl (by simp) (by simp) (Nat.le_refl _)
        (.refl _) rfl rfl (Or.inl rfl) (Or.inr rfl)
  | wait line _ _ _ _ _ =>
      unfold waitLine
      split
      · exact hKnown.receive
      · exact hKnown.push
  | replay key exe attempts early line id hPhase hLine _ =>
      refine hKnown.extend rfl (by simp) ?_ (Nat.le_succ _)
        (.refl _) rfl rfl (Or.inl rfl) (Or.inr (Or.inr rfl))
      intro c origin l hMem
      cases List.mem_singleton.mp hMem
      exact ⟨hKnown.handshake line hLine, Nat.le_refl _⟩
  | resend key exe _ _ _ stage kept _ hKept hStage =>
      refine hKnown.extend rfl (by simp) ?_ (Nat.le_succ _)
        (.refl _) rfl rfl (Or.inl rfl) (Or.inr (Or.inl ?_))
      · intro c origin l hMem
        cases List.mem_singleton.mp hMem
        exact ⟨(hKnown.kept kept hKept).1, Nat.le_refl _⟩
      · rcases hStage with ⟨_, rfl⟩ | ⟨_, rfl⟩ <;> rfl
  | skip line exe _ _ _ _ _ _ _ _ => exact hKnown.hear
  | replayInitialized line exe _ _ _ _ _ initialized hPhase _ =>
      refine hKnown.hear.extend rfl (by simp) ?_ (Nat.le_refl _)
        (.refl _) rfl rfl (Or.inl rfl) (Or.inr (Or.inl rfl))
      intro c origin l hMem
      cases List.mem_singleton.mp hMem
      have hLine : Received s.log initialized :=
        hKnown.stage initialized (by rw [hPhase]; rfl)
      exact ⟨hLine.append, Nat.le_refl _⟩
  | fail e _ _ _ _ u t _ _ hBroken hFailed =>
      exact (hKnown.broken hBroken).failed hFailed
  | adopt e _ _ _ _ _ _ u _ hAdopted =>
      exact (hKnown.adopted hAdopted).adopt
  | flushLine line queue _ hQueue =>
      refine hKnown.extend rfl (by simp) ?_ (Nat.le_refl _) ?_ rfl
        rfl (Or.inl rfl) (Or.inr (Or.inl rfl))
      · intro c origin l hMem
        cases List.mem_singleton.mp hMem
        refine ⟨hKnown.queued line ?_, Nat.le_refl _⟩
        rw [hQueue]
        exact List.mem_cons_self
      · rw [hQueue]
        exact List.sublist_cons_self _ _
  | forwardLine line _ =>
      have hReceive : (s.receive codec line).Known codec :=
        hKnown.receive
      refine hReceive.extend rfl (by simp) ?_ (Nat.le_refl _)
        (.refl _) rfl rfl (Or.inl rfl) (Or.inr (Or.inl rfl))
      intro c origin l hMem
      cases List.mem_singleton.mp hMem
      exact ⟨⟨_, _, List.mem_append_right _ List.mem_cons_self⟩,
        Nat.le_refl _⟩
  | waiter _ =>
      exact hKnown.same (List.append_nil _).symm (by simp)
        (by simp) (Nat.le_refl _) (.refl _) rfl rfl (Or.inl rfl)
        (Or.inr rfl)
  | loss t _ _ hLost => exact hKnown.takeHeld.lost hLost
  | awaitLine line _ =>
      unfold awaitLine
      split
      · have hPush :
            ((s.receive codec line).push
              ⟨s.received, line⟩).Known codec :=
          hKnown.push
        exact hPush.same (List.append_nil _).symm (by simp)
          (by simp) (Nat.le_refl _) (.refl _) rfl rfl
          (Or.inl rfl) (Or.inr rfl)
      · exact hKnown.receive

/- All lines of a reachable session are the client's. -/
theorem of_reachable
    (hReach : (machine setup codec).Reachable s) :
    s.Known codec := by
  refine invariant_of_reachable ?_
    (fun _ _ _ hKnown hMove => hKnown.pumpMove hMove)
    (fun _ _ _ hKnown hMove => hKnown.mainMove hMove) hReach
  constructor
  case caches =>
    intro l hReceived
    simp [Received, start] at hReceived
  all_goals simp [start, Tracker.default, Phase.initialized]

end Known

------------------------------------------------------------
-- Replays
------------------------------------------------------------

/- The notification waits in the queue. -/
def Queued
    (codec : Codec Line Value)
    (s : Session Line Value) : Prop :=
  ∃ l ∈ s.queue, codec.isInitialized l.line = true

/-
  In a round that replays, the notification is cached, and it
  is queued only once an attempt has begun its replay.
-/
structure Replaying
    (codec : Codec Line Value)
    (s : Session Line Value) : Prop where
  round :
    ∀ attempts early stage,
      s.phase = .round (some .replayDrop) attempts early stage →
        s.tracker.link = .reconnecting ∧
          s.tracker.replaysHandshake = true ∧
          (s.Queued codec → s.tracker.replayStarted = true)
  started :
    s.phase.replaying = true →
      s.tracker.replayStarted = true ∧
        ∃ attempts early stage,
          s.phase = .round (some .replayDrop) attempts early stage

/- A part of the queue holds no more of them. -/
theorem Queued.of_sublist
    (hQueue : t.queue.Sublist s.queue)
    (hQueued : t.Queued codec) :
    s.Queued codec := by
  rcases hQueued with ⟨l, hMem, hLine⟩
  exact ⟨l, hQueue.subset hMem, hLine⟩

namespace Replaying

/- The step of the invariant, where the round goes on. -/
theorem extend
    (hReplaying : s.Replaying codec)
    (hQueue : t.queue.Sublist s.queue)
    (hRound :
      ∀ attempts early stage,
        t.phase = .round (some .replayDrop) attempts early stage →
          (∃ attempts early stage,
            s.phase =
              .round (some .replayDrop) attempts early stage) ∧
            t.tracker.link = s.tracker.link ∧
            t.tracker.replaysHandshake =
              s.tracker.replaysHandshake ∧
            (s.tracker.replayStarted = true →
              t.tracker.replayStarted = true))
    (hStarted :
      t.phase.replaying = true →
        t.tracker.replayStarted = true ∧
          ∃ attempts early stage,
            t.phase =
              .round (some .replayDrop) attempts early stage) :
    t.Replaying codec := by
  refine ⟨fun attempts early stage h => ?_, hStarted⟩
  rcases hRound attempts early stage h with
    ⟨⟨_, _, _, hOld⟩, hLink, hReplays, hMono⟩
  have hBefore := hReplaying.round _ _ _ hOld
  rw [hLink, hReplays]
  exact ⟨hBefore.1, hBefore.2.1,
    fun hQueued => hMono (hBefore.2.2 (hQueued.of_sublist hQueue))⟩

/- What stays in its phase, with the same tracker. -/
theorem same
    (hReplaying : s.Replaying codec)
    (hQueue : t.queue.Sublist s.queue)
    (hPhase : t.phase = s.phase)
    (hTracker : t.tracker = s.tracker) :
    t.Replaying codec := by
  refine hReplaying.extend hQueue (fun _ _ _ h => ?_)
    (fun h => ?_)
  · rw [hPhase] at h
    rw [hTracker]
    exact ⟨⟨_, _, _, h⟩, rfl, rfl, fun h => h⟩
  · rw [hPhase] at h ⊢
    rw [hTracker]
    exact hReplaying.started h

/- What goes on in its round, and keeps replaying if it does. -/
theorem goesOn
    {after : Option AfterHello} {attempts attempts' : Nat}
    {early early' : Bool} {stage stage' : Stage Line Value}
    (hReplaying : s.Replaying codec)
    (hPhase : s.phase = .round after attempts early stage)
    (hNext : t.phase = .round after attempts' early' stage')
    (hTracker : t.tracker = s.tracker)
    (hQueue : t.queue.Sublist s.queue)
    (hStage :
      t.phase.replaying = true → s.phase.replaying = true) :
    t.Replaying codec := by
  refine hReplaying.extend hQueue (fun _ _ _ h => ?_)
    (fun h => ?_)
  · rw [hNext] at h
    cases h
    rw [hTracker]
    exact ⟨⟨_, _, _, hPhase⟩, rfl, rfl, fun h => h⟩
  · rcases hReplaying.started (hStage h) with
      ⟨hStarted, _, _, _, hAt⟩
    rw [hPhase] at hAt
    cases hAt
    rw [hTracker]
    exact ⟨hStarted, _, _, _, hNext⟩

/- What is not in a round that replays. -/
theorem of_phase
    (hRound :
      ∀ attempts early stage,
        s.phase ≠ .round (some .replayDrop) attempts early stage)
    (hStage : s.phase.replaying = false) :
    s.Replaying codec where
  round _ _ _ h := absurd h (hRound _ _ _)
  started h := by
    rw [hStage] at h
    cases h

/-
  The tracker queues a late notification only behind a
  replay.
-/
theorem receive
    {line : Line}
    (hReplaying : s.Replaying codec)
    (hRepeats : s.Repeats codec) :
    (s.receive codec line).Replaying codec := by
  rcases Tracker.onClientLine_eq codec s.tracker
    ⟨s.received, line⟩ with
    ⟨_, cached, _, _, _, hEq, hCached, _⟩
  have hTracker : (s.receive codec line).tracker = _ := hEq
  refine hReplaying.extend (.refl _) (fun _ _ _ h => ?_)
    (fun h => ?_)
  · have hInitialised := (hRepeats.replay _ _ _ h).1
    refine ⟨⟨_, _, _, h⟩, by rw [hTracker], ?_,
      fun h => by rw [hTracker]; exact h⟩
    rw [hTracker]
    rcases hCached with rfl | ⟨hNot, _⟩
    · rfl
    · rw [hInitialised] at hNot
      cases hNot
  · rw [hTracker]
    exact hReplaying.started h

/- Until an attempt has begun its replay it is only cached. -/
theorem waitLine
    {line : Line}
    (hReplaying : s.Replaying codec)
    (hRepeats : s.Repeats codec) :
    (s.waitLine codec line).Replaying codec := by
  have hReceive : (s.receive codec line).Replaying codec :=
    hReplaying.receive hRepeats
  unfold Session.waitLine
  split
  · exact hReceive
  · rename_i hKind
    refine ⟨fun attempts early stage h => ?_, hReceive.started⟩
    have hAfter := hReceive.round attempts early stage h
    refine ⟨hAfter.1, hAfter.2.1, fun hQueued => ?_⟩
    rcases hQueued with ⟨l, hMem, hLine⟩
    rcases List.mem_append.mp hMem with hMem | hMem
    · exact hAfter.2.2 ⟨l, hMem, hLine⟩
    · cases List.mem_singleton.mp hMem
      have hBefore := hReplaying.round attempts early stage h
      unfold clientLine at hKind
      rw [Tracker.kind_of_isInitialized hLine] at hKind
      unfold Tracker.onInitialized at hKind
      rcases Tracker.onClientLine_eq codec s.tracker
        ⟨s.received, line⟩ with ⟨_, _, _, _, _, hEq, _⟩
      have hTracker : (s.receive codec line).tracker = _ := hEq
      change (s.receive codec line).tracker.replayStarted = true
      rw [hTracker]
      cases hStarted : s.tracker.replayStarted with
      | true => rfl
      | false =>
          exact absurd
            (if_pos ⟨hBefore.1, hBefore.2.1, hStarted⟩) hKind

/-
  Between two rounds the notification is cached, and so not
  queued.
-/
theorem awaitLine
    {line : Line}
    (hReplaying : s.Replaying codec)
    (hRepeats : s.Repeats codec)
    (hPhase : s.phase = .disconnected) :
    (s.awaitLine codec line).Replaying codec := by
  unfold Session.awaitLine
  split
  case isFalse => exact hReplaying.receive hRepeats
  case isTrue hKind =>
    refine ⟨fun attempts early stage h => ?_, fun h => by cases h⟩
    have hReplays :
        (s.clientLine codec line).1.replaysHandshake = true := by
      simp only [startRound, «at», Phase.round.injEq,
        Option.some.injEq] at h
      rcases h with ⟨h, _⟩
      split at h
      · assumption
      · cases h
    refine ⟨rfl, hReplays, fun hQueued => ?_⟩
    rcases hQueued with ⟨l, hMem, hLine⟩
    have hQueue : l ∈ s.queue ++ [⟨s.received, line⟩] := hMem
    rw [hRepeats.idle hPhase] at hQueue
    cases List.mem_singleton.mp hQueue
    exact absurd (Codec.request_of_isInitialized hLine)
      (Tracker.request_of_kind hKind)

/- The pump does not run in a round. -/
theorem pumpMove
    (hReplaying : s.Replaying codec)
    (hOrderly : s.Orderly)
    (hMove : PumpMove codec s e t) :
    t.Replaying codec := by
  cases hMove with
  | «show» line hPump =>
      have hIn : s.phase.away = false := by
        refine eq_false_of_ne_true (fun h => ?_)
        rw [hOrderly.away h] at hPump
        cases hPump
      refine of_phase (fun _ _ _ h => ?_) ?_
      · rw [← Bool.not_eq_true] at hIn
        exact hIn (congrArg Phase.away h)
      · change s.phase.replaying = false
        cases hPhase : s.phase <;> rw [hPhase] at hIn <;>
          first | rfl | cases hIn
  | _ => exact hReplaying.same (.refl _) rfl rfl

section Round

variable {after : Option AfterHello}
variable {attempts : Nat}
variable {early : Bool}
variable {stage : Stage Line Value}

/- An attempt that fails leaves the queue to the next one. -/
theorem failed
    (hReplaying : s.Replaying codec)
    (hPhase : s.phase = .round after attempts early stage)
    (hBroken : Broken s after stage u)
    (hFailed : Failed u after attempts t) :
    t.Replaying codec := by
  have hTracker :
      u.tracker = s.tracker ∨
        u.tracker = s.tracker.markReplayStarted := by
    cases hBroken with
    | replaying _ _ => exact Or.inr rfl
    | _ => exact Or.inl rfl
  have hQueue : u.queue = s.queue := by
    cases hBroken <;> rfl
  cases hFailed with
  | retry early' _ =>
      refine hReplaying.extend (hQueue ▸ .refl _)
        (fun _ _ _ h => ?_) (fun h => by cases h)
      cases h
      refine ⟨⟨_, _, _, hPhase⟩, ?_⟩
      change u.tracker.link = _ ∧ u.tracker.replaysHandshake = _ ∧
        (_ → u.tracker.replayStarted = true)
      rcases hTracker with hTracker | hTracker <;> rw [hTracker]
      · exact ⟨rfl, rfl, fun h => h⟩
      · exact ⟨rfl, rfl, fun _ => rfl⟩
  | _ =>
      exact of_phase (fun _ _ _ h => by cases h) rfl

end Round

/- A round begins with an empty queue. -/
theorem lost
    (hLost : Lost codec u t) :
    t.Replaying codec := by
  cases hLost with
  | now kept _ hUsed =>
      rw [reconnectNow_eq _ _ hUsed]
      refine of_phase (fun _ _ _ h => ?_) rfl
      simp only [Phase.round.injEq, Option.some.injEq] at h
      rcases h with ⟨h, _⟩
      split at h <;> cases h
  | _ => exact of_phase (fun _ _ _ h => by cases h) rfl

/- The main loop, case by case. -/
theorem mainMove
    (hReplaying : s.Replaying codec)
    (hRepeats : s.Repeats codec)
    (hMove : MainMove codec s e t) :
    t.Replaying codec := by
  cases hMove with
  | hop e phase hHop =>
      cases hHop with
      | replayed _ _ _ _ _ _ hPhase =>
          refine hReplaying.goesOn hPhase rfl rfl (.refl _) ?_
          intro _
          rw [hPhase]
          rfl
      | resent _ _ _ _ _ hPhase =>
          exact hReplaying.goesOn hPhase rfl rfl (.refl _)
            (fun h => by cases h)
      | _ => exact of_phase (fun _ _ _ h => by cases h) rfl
  | wait line _ _ _ _ _ => exact hReplaying.waitLine hRepeats
  | begin after attempts early hPhase =>
      exact hReplaying.goesOn hPhase rfl rfl (.refl _)
        (fun h => by cases h)
  | replay key exe attempts early line id hPhase _ _ =>
      refine hReplaying.extend (.refl _) (fun _ _ _ h => ?_)
        (fun _ => ⟨rfl, _, _, _, rfl⟩)
      exact ⟨⟨_, _, _, hPhase⟩, rfl, rfl, fun _ => rfl⟩
  | resend key exe after _ _ stage kept hPhase _ hStage =>
      refine hReplaying.goesOn hPhase rfl rfl (.refl _) ?_
      intro h
      rcases hStage with ⟨_, rfl⟩ | ⟨_, rfl⟩ <;> cases h
  | skip line exe _ _ _ _ _ _ _ _ =>
      exact hReplaying.same (.refl _) rfl rfl
  | replayInitialized line exe _ _ _ _ _ initialized hPhase _ =>
      refine hReplaying.goesOn hPhase rfl rfl (.refl _) ?_
      intro _
      rw [hPhase]
      rfl
  | fail e _ _ _ _ u t hPhase _ hBroken hFailed =>
      exact hReplaying.failed hPhase hBroken hFailed
  | adopt e after attempts _ _ key response u _ _ =>
      rcases u.adopt_eq codec after attempts key response with
        ⟨_, _, _, hEq, _⟩
      rw [hEq]
      exact of_phase (fun _ _ _ h => by cases h) rfl
  | loss t _ _ hLost => exact lost hLost
  | awaitLine line hPhase =>
      exact hReplaying.awaitLine hRepeats hPhase
  | _ => exact of_phase (fun _ _ _ h => by cases h) rfl

/- Rounds are as described in every reachable state. -/
theorem of_reachable
    (hReach : (machine setup codec).Reachable s) :
    s.Replaying codec :=
  induction_of_reachable
    (of_phase (fun _ _ _ h => by cases h) rfl)
    (fun _ _ _ hSource hReplaying hMove =>
      hReplaying.pumpMove (.of_reachable hSource) hMove)
    (fun _ _ _ hSource hReplaying hMove =>
      hReplaying.mainMove (.of_reachable hSource) hMove) hReach

end Replaying

end Session

------------------------------------------------------------
-- The Notification
------------------------------------------------------------

/- The client sends the notification once. -/
def NotifiesOnce
    (codec : Codec Line Value)
    (log : List (Effect Line Value)) : Prop :=
  ∀ l l', Received log l → Received log l' →
    codec.isInitialized l.line = true →
      codec.isInitialized l'.line = true → l = l'

/- The handshake has been replayed on a connection. -/
def Replayed
    (log : List (Effect Line Value))
    (c : Nat) : Prop :=
  ∃ l, Effect.written c .replay l ∈ log

/-
  It is written to a connection at most once, and on one that
  replays the handshake before any later request; a later line
  has a higher number.
-/
def Notifies
    (codec : Codec Line Value)
    (before : List (Effect Line Value)) :
    Effect Line Value → Prop
| .written c origin l =>
    (codec.isInitialized l.line = true →
      ∀ origin' l', Effect.written c origin' l' ∈ before →
        codec.isInitialized l'.line = false) ∧
      (origin = .client → codec.request l.line ≠ none →
        Replayed before c →
          ∀ l', Received before l' →
            codec.isInitialized l'.line = true →
              l'.number < l.number →
                ∃ origin',
                  Effect.written c origin' l' ∈ before)
| .received l _ _ =>
    ∀ c l', Effect.written c .client l' ∈ before →
      l'.number < l.number
| _ => True

/- Once in the whole log is once in a part of it. -/
theorem NotifiesOnce.of_prefix
    {codec : Codec Line Value}
    {log log' : List (Effect Line Value)}
    (hOnce : NotifiesOnce codec log')
    (hPrefix : log <+: log') :
    NotifiesOnce codec log := by
  rcases hPrefix with ⟨es, rfl⟩
  exact fun l l' hReceived hReceived' =>
    hOnce l l' hReceived.append hReceived'.append

/- Other effects replay nothing. -/
theorem Replayed.of_append
    {log es : List (Effect Line Value)}
    {c : Nat}
    (hEs : ∀ l, Effect.written c .replay l ∉ es)
    (hReplayed : Replayed (log ++ es) c) :
    Replayed log c := by
  rcases hReplayed with ⟨l, hMem⟩
  rcases List.mem_append.mp hMem with hMem | hMem
  · exact ⟨l, hMem⟩
  · exact absurd hMem (hEs l)

namespace Session

variable {setup : Setup} {codec : Codec Line Value}
variable {s t u : Session Line Value} {e : Event Line}

/-
  What has been sent is not queued, and what a replay is to
  send is not queued; on a connection that replays, what is
  cached has been sent, or it is going to be.
-/
structure Notified
    (codec : Codec Line Value)
    (s : Session Line Value) : Prop where
  sent :
    ∀ origin l, Effect.written s.conn origin l ∈ s.log →
      codec.isInitialized l.line = true →
        ¬ s.Queued codec ∧ s.phase.initialized = none
  apart : s.phase.initialized ≠ none → ¬ s.Queued codec
  reaches :
    s.phase.live = true → Replayed s.log s.conn →
      ∀ l, s.tracker.cachedInitialized = some l →
        (∃ origin, Effect.written s.conn origin l ∈ s.log) ∨
          l ∈ s.queue ∨ s.phase.initialized = some l
  resends : s.phase.resending = true → ¬ Replayed s.log s.conn
  history : History.Holds (Notifies codec) s.log

namespace Notified

/-
  Effects that receive and write nothing do not concern the
  notification.
-/
theorem history_append
    {es : List (Effect Line Value)}
    (hNotified : s.Notified codec)
    (hReceived : ∀ l kind kept, Effect.received l kind kept ∉ es)
    (hWritten : ∀ c origin l, Effect.written c origin l ∉ es) :
    History.Holds (Notifies codec) (s.log ++ es) := by
  refine hNotified.history.append (fun e hMem before => ?_)
  cases e with
  | received l kind kept => exact absurd hMem (hReceived _ _ _)
  | written c origin l => exact absurd hMem (hWritten _ _ _)
  | _ => trivial

/- What sends nothing, and receives nothing. -/
theorem extend
    {es : List (Effect Line Value)}
    (hNotified : s.Notified codec)
    (hLog : t.log = s.log ++ es)
    (hReceived : ∀ l kind kept, Effect.received l kind kept ∉ es)
    (hWritten : ∀ c origin l, Effect.written c origin l ∉ es)
    (hConn : t.conn = s.conn)
    (hQueue : t.queue.Sublist s.queue)
    (hCached :
      t.tracker.cachedInitialized = s.tracker.cachedInitialized)
    (hPhase :
      t.phase.initialized = s.phase.initialized ∨
        t.phase.initialized = none)
    (hLive :
      t.phase.live = true →
        s.phase.live = true ∧ t.queue = s.queue ∧
          t.phase.initialized = s.phase.initialized)
    (hResending :
      t.phase.resending = true → s.phase.resending = true) :
    t.Notified codec := by
  have hOld :
      ∀ origin l, Effect.written t.conn origin l ∈ t.log →
        Effect.written s.conn origin l ∈ s.log := by
    intro origin l hMem
    rw [hLog, hConn] at hMem
    rcases List.mem_append.mp hMem with hMem | hMem
    · exact hMem
    · exact absurd hMem (hWritten _ _ _)
  have hReplayed :
      Replayed t.log t.conn → Replayed s.log s.conn :=
    fun ⟨l, hMem⟩ => ⟨l, hOld _ l hMem⟩
  have hQueued : t.Queued codec → s.Queued codec :=
    fun h => h.of_sublist hQueue
  constructor
  case sent =>
    intro origin l hMem hLine
    have hBefore := hNotified.sent origin l (hOld _ _ hMem) hLine
    refine ⟨fun h => hBefore.1 (hQueued h), ?_⟩
    rcases hPhase with hPhase | hPhase
    · rw [hPhase]
      exact hBefore.2
    · exact hPhase
  case apart =>
    intro hSome h
    rcases hPhase with hPhase | hPhase
    · rw [hPhase] at hSome
      exact hNotified.apart hSome (hQueued h)
    · exact hSome hPhase
  case reaches =>
    intro h hAt l hSome
    rcases hLive h with ⟨hBefore, hSame, hStage⟩
    rw [hCached] at hSome
    rw [hSame, hStage]
    rcases hNotified.reaches hBefore (hReplayed hAt) l hSome with
      ⟨origin, hMem⟩ | hMem
    · refine Or.inl ⟨origin, ?_⟩
      rw [hLog, hConn]
      exact List.mem_append_left _ hMem
    · exact Or.inr hMem
  case resends =>
    exact fun h hAt =>
      hNotified.resends (hResending h) (hReplayed hAt)
  case history =>
    rw [hLog]
    exact hNotified.history_append hReceived hWritten

/-
  Nothing has been written to a connection that does not
  exist.
-/
theorem not_written_fresh
    (hKnown : s.Known codec)
    (origin : Origin)
    (l : Numbered Line) :
    Effect.written (s.conn + 1) origin l ∉ s.log := by
  intro hMem
  exact Nat.not_succ_le_self _ (hKnown.written _ origin l hMem).2

/- A connection on which nothing has been written. -/
theorem newConn
    {es : List (Effect Line Value)}
    (hNotified : s.Notified codec)
    (hKnown : s.Known codec)
    (hLog : t.log = s.log ++ es)
    (hReceived : ∀ l kind kept, Effect.received l kind kept ∉ es)
    (hWritten : ∀ c origin l, Effect.written c origin l ∉ es)
    (hConn : t.conn = s.conn + 1)
    (hPhase : t.phase.initialized = none) :
    t.Notified codec := by
  have hNone :
      ∀ origin l, Effect.written t.conn origin l ∉ t.log := by
    intro origin l hMem
    rw [hLog, hConn] at hMem
    rcases List.mem_append.mp hMem with hMem | hMem
    · exact not_written_fresh hKnown origin l hMem
    · exact hWritten _ _ _ hMem
  constructor
  case sent =>
    exact fun origin l hMem => absurd hMem (hNone origin l)
  case apart => exact fun h => absurd hPhase h
  case reaches =>
    exact fun _ ⟨l, hMem⟩ => absurd hMem (hNone _ l)
  case resends => exact fun _ ⟨l, hMem⟩ => hNone _ l hMem
  case history =>
    rw [hLog]
    exact hNotified.history_append hReceived hWritten

------------------------------------------------------------
-- Lines of the Client
------------------------------------------------------------

section Client

variable {line : Line}

/- The notification that is received is the only one. -/
theorem first_of_once
    {l : Numbered Line}
    (hDelivered : s.Delivered)
    (hOnce : NotifiesOnce codec (s.receive codec line).log)
    (hLine : codec.isInitialized line = true)
    (hReceived : Received s.log l) :
    codec.isInitialized l.line = false := by
  refine eq_false_of_ne_true (fun h => ?_)
  have hSame :=
    hOnce l ⟨s.received, line⟩ hReceived.append
      ⟨_, _, List.mem_append_right _ List.mem_cons_self⟩ h hLine
  rcases hReceived with ⟨kind, kept, hMem⟩
  have hNumber := hDelivered.received l kind kept hMem
  rw [hSame] at hNumber
  exact Nat.lt_irrefl _ hNumber

/- A line that arrives has the highest number so far. -/
theorem history_receive
    (hNotified : s.Notified codec)
    (hDelivered : s.Delivered) :
    History.Holds (Notifies codec)
      (s.receive codec line).log :=
  hNotified.history.snoc
    (fun c l hMem => (hDelivered.written c l hMem).1)

/- Receiving writes nothing. -/
theorem written_receive
    {c : Nat}
    {origin : Origin}
    {l : Numbered Line}
    (hMem :
      Effect.written c origin l ∈ (s.receive codec line).log) :
    Effect.written c origin l ∈ s.log := by
  rcases List.mem_append.mp hMem with hMem | hMem
  · exact hMem
  · simp at hMem

/- What is cached is the line, or what has been cached. -/
theorem cached_receive
    {l : Numbered Line}
    (hSome :
      (s.receive codec line).tracker.cachedInitialized =
        some l) :
    s.tracker.cachedInitialized = some l ∨
      (codec.isInitialized line = true ∧
        l = ⟨s.received, line⟩) := by
  rcases Tracker.onClientLine_eq codec s.tracker
    ⟨s.received, line⟩ with
    ⟨_, _, initialized, _, _, hEq, _, hInit, _⟩
  have hTracker : (s.receive codec line).tracker = _ := hEq
  rw [hTracker] at hSome
  rcases hInit with ⟨_, rfl⟩ | ⟨hLine, rfl⟩
  · exact Or.inl hSome
  · cases hSome
    exact Or.inr ⟨hLine, rfl⟩

/- Once an attempt has begun its replay, it is queued. -/
theorem kind_of_started
    (hLine : codec.isInitialized line = true)
    (hStarted : s.tracker.replayStarted = true) :
    (s.clientLine codec line).2 ≠ .cacheOnly := by
  unfold clientLine
  rw [Tracker.kind_of_isInitialized hLine]
  unfold Tracker.onInitialized
  rw [if_neg (by simp [hStarted])]
  simp

/- A line that arrives in a round keeps the invariant. -/
theorem waitLine
    (hNotified : s.Notified codec)
    (hKnown : s.Known codec)
    (hDelivered : s.Delivered)
    (hCached : s.Cached codec)
    (hReplaying : s.Replaying codec)
    (hRound :
      s.phase.live = true →
        s.phase.replaying = true ∨ s.phase.resending = true)
    (hOnce : NotifiesOnce codec (s.receive codec line).log) :
    (s.waitLine codec line).Notified codec := by
  have hFirst :
      ∀ l, Received s.log l → codec.isInitialized line = true →
        codec.isInitialized l.line = false :=
    fun l hReceived hLine =>
      first_of_once hDelivered hOnce hLine hReceived
  have hLog :
      (s.waitLine codec line).log =
        (s.receive codec line).log := by
    unfold Session.waitLine
    split <;> rfl
  have hPhase : (s.waitLine codec line).phase = s.phase := by
    unfold Session.waitLine
    split <;> rfl
  have hConn : (s.waitLine codec line).conn = s.conn := by
    unfold Session.waitLine
    split <;> rfl
  have hTracker :
      (s.waitLine codec line).tracker =
        (s.receive codec line).tracker := by
    unfold Session.waitLine
    split <;> rfl
  have hQueue :
      ∀ l, l ∈ (s.waitLine codec line).queue →
        l ∈ s.queue ∨ l = ⟨s.received, line⟩ := by
    intro l hMem
    unfold Session.waitLine at hMem
    split at hMem
    · exact Or.inl hMem
    · rcases List.mem_append.mp hMem with hMem | hMem
      · exact Or.inl hMem
      · exact Or.inr (List.mem_singleton.mp hMem)
  have hQueued :
      (s.waitLine codec line).Queued codec →
        s.Queued codec ∨ codec.isInitialized line = true := by
    rintro ⟨l, hMem, hLine⟩
    rcases hQueue l hMem with hMem | rfl
    · exact Or.inl ⟨l, hMem, hLine⟩
    · exact Or.inr hLine
  have hWritten :
      ∀ origin l,
        Effect.written (s.waitLine codec line).conn origin l ∈
            (s.waitLine codec line).log →
          Effect.written s.conn origin l ∈ s.log := by
    intro origin l hMem
    rw [hLog, hConn] at hMem
    exact written_receive hMem
  constructor
  case sent =>
    intro origin l hMem hLine
    have hOld := hWritten origin l hMem
    have hBefore := hNotified.sent origin l hOld hLine
    rw [hPhase]
    refine ⟨fun h => ?_, hBefore.2⟩
    rcases hQueued h with h | h
    · exact hBefore.1 h
    · rw [hFirst l (hKnown.written _ _ _ hOld).1 h] at hLine
      cases hLine
  case apart =>
    rw [hPhase]
    intro hSome h
    rcases Option.ne_none_iff_exists'.mp hSome with ⟨l, hStage⟩
    rcases hQueued h with h | h
    · exact hNotified.apart hSome h
    · have hLine := hCached.stage l hStage
      rw [hFirst l (hKnown.stage l hStage) h] at hLine
      cases hLine
  case reaches =>
    rw [hPhase, hTracker]
    rintro hLive ⟨r, hMem⟩ l hSome
    have hOldReplay : Replayed s.log s.conn :=
      ⟨r, hWritten _ r hMem⟩
    rcases cached_receive hSome with hOld | ⟨hLine, rfl⟩
    · rcases hNotified.reaches hLive hOldReplay l hOld with
        ⟨origin, hMem⟩ | hMem | hStage
      · refine Or.inl ⟨origin, ?_⟩
        rw [hLog, hConn]
        exact List.mem_append_left _ hMem
      · refine Or.inr (Or.inl ?_)
        unfold Session.waitLine
        split
        · exact hMem
        · exact List.mem_append_left _ hMem
      · exact Or.inr (Or.inr hStage)
    · refine Or.inr (Or.inl ?_)
      rcases hRound hLive with hStage | hStage
      · have hKind :=
          kind_of_started hLine (hReplaying.started hStage).1
        unfold Session.waitLine
        rw [if_neg hKind]
        exact List.mem_append_right _ List.mem_cons_self
      · exact absurd hOldReplay (hNotified.resends hStage)
  case resends =>
    rw [hPhase]
    exact fun h ⟨r, hMem⟩ =>
      hNotified.resends h ⟨r, hWritten _ r hMem⟩
  case history =>
    rw [hLog]
    exact hNotified.history_receive hDelivered

/- A line that arrives between two rounds is cached. -/
theorem awaitLine
    (hNotified : s.Notified codec)
    (hDelivered : s.Delivered)
    (hPhase : s.phase = .disconnected) :
    (s.awaitLine codec line).Notified codec := by
  have hStage : s.phase.initialized = none := by
    rw [hPhase]
    rfl
  unfold Session.awaitLine
  split
  case isFalse =>
    constructor
    case sent =>
      exact fun origin l hMem hLine =>
        hNotified.sent origin l (written_receive hMem) hLine
    case apart => exact fun h => absurd hStage h
    case reaches =>
      intro h
      change s.phase.live = true at h
      rw [hPhase] at h
      cases h
    case resends =>
      intro h
      change s.phase.resending = true at h
      rw [hPhase] at h
      cases h
    case history => exact hNotified.history_receive hDelivered
  case isTrue hKind =>
    constructor
    case sent =>
      intro origin l hMem hLine
      refine ⟨fun h => ?_, rfl⟩
      have hBefore :=
        hNotified.sent origin l (written_receive hMem) hLine
      rcases h with ⟨l', hMem', hLine'⟩
      rcases List.mem_append.mp hMem' with hMem' | hMem'
      · exact hBefore.1 ⟨l', hMem', hLine'⟩
      · cases List.mem_singleton.mp hMem'
        exact absurd (Codec.request_of_isInitialized hLine')
          (Tracker.request_of_kind hKind)
    case apart => exact fun h => absurd rfl h
    case reaches => exact fun h => by cases h
    case resends => exact fun h => by cases h
    case history => exact hNotified.history_receive hDelivered

end Client

------------------------------------------------------------
-- Writes
------------------------------------------------------------

/- The first line that is written to a connection. -/
theorem begin
    {origin : Origin}
    {line : Numbered Line}
    (hNotified : s.Notified codec)
    (hKnown : s.Known codec)
    (hOrigin : origin ≠ .client)
    (hLine : codec.isInitialized line.line = false)
    (hLog :
      t.log = s.log ++ [.written (s.conn + 1) origin line])
    (hConn : t.conn = s.conn + 1)
    (hQueue : t.queue = s.queue)
    (hApart : t.phase.initialized ≠ none → ¬ s.Queued codec)
    (hReaches :
      t.phase.live = true → origin = .replay →
        t.phase.initialized = t.tracker.cachedInitialized)
    (hResending :
      t.phase.resending = true → origin = .resend) :
    t.Notified codec := by
  have hOnly :
      ∀ origin' l, Effect.written t.conn origin' l ∈ t.log →
        origin' = origin ∧ l = line := by
    intro origin' l hMem
    rw [hLog, hConn] at hMem
    rcases List.mem_append.mp hMem with hMem | hMem
    · exact absurd hMem (not_written_fresh hKnown origin' l)
    · cases List.mem_singleton.mp hMem
      exact ⟨rfl, rfl⟩
  constructor
  case sent =>
    intro origin' l hMem hOther
    rw [(hOnly origin' l hMem).2, hLine] at hOther
    cases hOther
  case apart =>
    rintro hSome ⟨l, hMem, h⟩
    exact hApart hSome ⟨l, hQueue ▸ hMem, h⟩
  case reaches =>
    rintro hLive ⟨l, hMem⟩ l' hSome
    rw [hReaches hLive (hOnly _ l hMem).1.symm]
    exact Or.inr (Or.inr hSome)
  case resends =>
    rintro h ⟨l, hMem⟩
    have hReplay := (hOnly _ l hMem).1
    rw [hResending h] at hReplay
    cases hReplay
  case history =>
    rw [hLog]
    refine hNotified.history.snoc ⟨fun h => ?_, fun h => ?_⟩
    · rw [hLine] at h
      cases h
    · exact absurd h hOrigin

/- The replay sends the notification that it has read. -/
theorem replayInitialized
    {line : Numbered Line}
    (hNotified : s.Notified codec)
    (hKnown : s.Known codec)
    (hCached : s.Cached codec)
    (hOnce : NotifiesOnce codec s.log)
    (hStage : s.phase.initialized = some line)
    (hLog : t.log = s.log ++ [.written s.conn .replay line])
    (hConn : t.conn = s.conn)
    (hQueue : t.queue = s.queue)
    (hSame :
      t.tracker.cachedInitialized = s.tracker.cachedInitialized)
    (hPhase : t.phase.initialized = none)
    (hResending : t.phase.resending = false) :
    t.Notified codec := by
  have hLine := hCached.stage line hStage
  constructor
  case sent =>
    intro origin l _ _
    refine ⟨fun ⟨l', hMem, h⟩ => ?_, hPhase⟩
    exact hNotified.apart (by rw [hStage]; simp)
      ⟨l', hQueue ▸ hMem, h⟩
  case apart => exact fun h => absurd hPhase h
  case reaches =>
    intro _ _ l hSome
    rw [hSame] at hSome
    have hEq : l = line :=
      hOnce l line (hKnown.cached l hSome)
        (hKnown.stage line hStage) (hCached.initialized l hSome)
        hLine
    refine Or.inl ⟨.replay, ?_⟩
    rw [hLog, hConn, hEq]
    exact List.mem_append_right _ List.mem_cons_self
  case resends =>
    rw [hResending]
    exact fun h => by cases h
  case history =>
    rw [hLog]
    refine hNotified.history.snoc ⟨fun _ origin l hMem => ?_,
      fun h => by cases h⟩
    refine eq_false_of_ne_true (fun h => ?_)
    have hNone := (hNotified.sent origin l hMem h).2
    rw [hStage] at hNone
    cases hNone

/- What has been cached has been sent before a later request. -/
theorem sent_before
    (line : Numbered Line)
    (hNotified : s.Notified codec)
    (hKnown : s.Known codec)
    (hCached : s.Cached codec)
    (hOnce : NotifiesOnce codec s.log)
    (hLive : s.phase.live = true)
    (hStage : s.phase.initialized = none)
    (hQueue :
      ∀ l ∈ s.queue, codec.isInitialized l.line = true →
        line.number < l.number)
    (hReplayed : Replayed s.log s.conn)
    (l : Numbered Line)
    (hReceived : Received s.log l)
    (hLine : codec.isInitialized l.line = true)
    (hNumber : l.number < line.number) :
    ∃ origin, Effect.written s.conn origin l ∈ s.log := by
  rcases Option.ne_none_iff_exists'.mp
    (hKnown.caches l hReceived hLine) with ⟨l', hSome⟩
  have hEq : l' = l :=
    hOnce l' l (hKnown.cached l' hSome) hReceived
      (hCached.initialized l' hSome) hLine
  rw [hEq] at hSome
  rcases hNotified.reaches hLive hReplayed l hSome with
    hSent | hMem | hAt
  · exact hSent
  · exact absurd (hQueue l hMem hLine)
      (Nat.lt_asymm hNumber)
  · rw [hStage] at hAt
    cases hAt

/- The flush writes the queue in order, each line once. -/
theorem flushLine
    {line : Numbered Line}
    {queue : List (Numbered Line)}
    (hNotified : s.Notified codec)
    (hKnown : s.Known codec)
    (hDelivered : s.Delivered)
    (hCached : s.Cached codec)
    (hOnce : NotifiesOnce codec s.log)
    (hPhase : s.phase = .flush)
    (hQueue : s.queue = line :: queue) :
    (({ s with queue := queue }.write .client line).at
      .flushing).Notified codec := by
  have hLive : s.phase.live = true := by
    rw [hPhase]
    rfl
  have hStage : s.phase.initialized = none := by
    rw [hPhase]
    rfl
  have hFirst : line ∈ s.queue := hQueue ▸ List.mem_cons_self
  have hRest : ∀ l ∈ queue, l ∈ s.queue :=
    fun l hMem => hQueue ▸ List.mem_cons_of_mem _ hMem
  have hSorted :
      ∀ l ∈ queue, line.number < l.number :=
    (List.pairwise_cons.mp (hQueue ▸ hDelivered.sorted)).1
  constructor
  case sent =>
    intro origin l hMem hLine
    refine ⟨fun ⟨l', hMem', hLine'⟩ => ?_, rfl⟩
    rcases List.mem_append.mp hMem with hMem | hMem
    · exact (hNotified.sent origin l hMem hLine).1
        ⟨l', hRest l' hMem', hLine'⟩
    · cases List.mem_singleton.mp hMem
      have hEq : l' = line :=
        hOnce l' line (hKnown.queued l' (hRest l' hMem'))
          (hKnown.queued line hFirst) hLine' hLine
      have hLater := hSorted l' hMem'
      rw [hEq] at hLater
      exact Nat.lt_irrefl _ hLater
  case apart => exact fun h => absurd rfl h
  case reaches =>
    rintro _ ⟨r, hMem⟩ l hSome
    have hReplayed : Replayed s.log s.conn := by
      rcases List.mem_append.mp hMem with hMem | hMem
      · exact ⟨r, hMem⟩
      · simp at hMem
    rcases hNotified.reaches hLive hReplayed l hSome with
      ⟨origin, hMem⟩ | hMem | hAt
    · exact Or.inl ⟨origin, List.mem_append_left _ hMem⟩
    · rw [hQueue] at hMem
      rcases List.mem_cons.mp hMem with rfl | hMem
      · exact Or.inl ⟨.client,
          List.mem_append_right _ List.mem_cons_self⟩
      · exact Or.inr (Or.inl hMem)
    · rw [hStage] at hAt
      cases hAt
  case resends => exact fun h => by cases h
  case history =>
    refine hNotified.history.snoc
      ⟨fun hLine origin l hMem => ?_,
        fun _ hRequest hReplayed => ?_⟩
    · refine eq_false_of_ne_true (fun h => ?_)
      exact (hNotified.sent origin l hMem h).1
        ⟨line, hFirst, hLine⟩
    · refine hNotified.sent_before line hKnown hCached hOnce
        hLive hStage (fun l hMem hLine => ?_) hReplayed
      rw [hQueue] at hMem
      rcases List.mem_cons.mp hMem with rfl | hMem
      · exact absurd (Codec.request_of_isInitialized hLine)
          hRequest
      · exact hSorted l hMem

/-
  A line is forwarded at once only when nothing else waits.
-/
theorem forwardLine
    {line : Line}
    (hNotified : s.Notified codec)
    (hKnown : s.Known codec)
    (hDelivered : s.Delivered)
    (hCached : s.Cached codec)
    (hFlushed : s.Flushed)
    (hOnce : NotifiesOnce codec (s.receive codec line).log)
    (hPhase : s.phase = .forward) :
    (s.forwardLine codec line).Notified codec := by
  have hLive : s.phase.live = true := by
    rw [hPhase]
    rfl
  have hStage : s.phase.initialized = none := by
    rw [hPhase]
    rfl
  have hQueue : s.queue = [] := hFlushed (Or.inl hPhase)
  have hNew :
      Effect.written s.conn .client ⟨s.received, line⟩ ∈
        (s.forwardLine codec line).log :=
    List.mem_append_right _ List.mem_cons_self
  have hOld :
      ∀ c origin l, Effect.written c origin l ∈ s.log →
        Effect.written c origin l ∈
          (s.forwardLine codec line).log :=
    fun c origin l hMem =>
      List.mem_append_left _ (List.mem_append_left _ hMem)
  constructor
  case sent =>
    intro origin l _ _
    refine ⟨fun ⟨l', hMem, _⟩ => ?_, rfl⟩
    have hNone : l' ∈ s.queue := hMem
    rw [hQueue] at hNone
    cases hNone
  case apart => exact fun h => absurd rfl h
  case reaches =>
    rintro _ ⟨r, hMem⟩ l hSome
    have hReplayed : Replayed s.log s.conn := by
      rcases List.mem_append.mp hMem with hMem | hMem
      · exact ⟨r, written_receive hMem⟩
      · simp at hMem
    rcases cached_receive hSome with hBefore | ⟨_, rfl⟩
    · rcases hNotified.reaches hLive hReplayed l hBefore with
        ⟨origin, hMem⟩ | hMem | hAt
      · exact Or.inl ⟨origin, hOld _ _ _ hMem⟩
      · rw [hQueue] at hMem
        cases hMem
      · rw [hStage] at hAt
        cases hAt
    · exact Or.inl ⟨.client, hNew⟩
  case resends => exact fun h => by cases h
  case history =>
    refine (hNotified.history_receive hDelivered).snoc
      ⟨fun hLine origin l hMem => ?_,
        fun _ hRequest hReplayed l hReceived hLine hNumber => ?_⟩
    · exact first_of_once hDelivered hOnce hLine
        (hKnown.written _ _ _ (written_receive hMem)).1
    · have hBefore : Received s.log l := by
        rcases hReceived with ⟨kind, kept, hMem⟩
        rcases List.mem_append.mp hMem with hMem | hMem
        · exact ⟨kind, kept, hMem⟩
        · cases List.mem_singleton.mp hMem
          exact absurd (Codec.request_of_isInitialized hLine)
            hRequest
      rcases hReplayed with ⟨r, hMem⟩
      rcases hNotified.sent_before ⟨s.received, line⟩ hKnown
        hCached (hOnce.of_prefix (List.prefix_append _ _)) hLive
        hStage (fun l hMem => by rw [hQueue] at hMem; cases hMem)
        ⟨r, written_receive hMem⟩ l hBefore hLine hNumber with
        ⟨origin, hMem⟩
      exact ⟨origin, List.mem_append_left _ hMem⟩

------------------------------------------------------------
-- Steps
------------------------------------------------------------

/- The daemon's lines touch neither queue nor cache. -/
theorem onDaemonLine
    {line : Line}
    (hNotified : s.Notified codec) :
    (s.onDaemonLine codec line).Notified codec := by
  rcases Tracker.onDaemonLine_eq codec s.tracker line with
    ⟨_, _, _, hEq, _⟩
  unfold Session.onDaemonLine
  rw [hEq]
  exact hNotified.extend (List.append_nil _).symm (by simp)
    (by simp) rfl (.refl _) rfl (Or.inl rfl)
    (fun h => ⟨h, rfl, rfl⟩) (fun h => h)

/- The pump touches neither queue nor cache. -/
theorem pumpMove
    (hNotified : s.Notified codec)
    (hMove : PumpMove codec s e t) :
    t.Notified codec := by
  cases hMove with
  | «show» line _ =>
      have hShown : (s.onDaemonLine codec line).Notified codec :=
        hNotified.onDaemonLine
      exact hShown.extend rfl (by simp) (by simp) rfl (.refl _)
        rfl (Or.inl rfl) (fun h => ⟨h, rfl, rfl⟩) (fun h => h)
  | read line _ | send line _ =>
      exact hNotified.extend rfl (by simp) (by simp) rfl (.refl _)
        rfl (Or.inl rfl) (fun h => ⟨h, rfl, rfl⟩) (fun h => h)
  | _ =>
      exact hNotified.extend (List.append_nil _).symm (by simp)
        (by simp) rfl (.refl _) rfl (Or.inl rfl)
        (fun h => ⟨h, rfl, rfl⟩) (fun h => h)

/- A handshake touches neither queue nor cache. -/
theorem hear
    {line : Line}
    (hNotified : s.Notified codec) :
    (s.hear line).Notified codec :=
  hNotified.extend rfl (by simp) (by simp) rfl (.refl _) rfl
    (Or.inl rfl) (fun h => ⟨h, rfl, rfl⟩) (fun h => h)

section Round

variable {after : Option AfterHello}
variable {attempts : Nat}
variable {early : Bool}
variable {stage : Stage Line Value}

/- A broken attempt is forgotten with its connection. -/
theorem broken
    (hNotified : s.Notified codec)
    (hKnown : s.Known codec)
    (hPhase : s.phase = .round after attempts early stage)
    (hBroken : Broken s after stage u) :
    u.Notified codec := by
  cases hBroken with
  | failed => exact hNotified
  | hello hStage | replaying hStage _ =>
      refine hNotified.newConn hKnown (List.append_nil _).symm
        (by simp) (by simp) rfl ?_
      change s.phase.initialized = none
      rw [hPhase, hStage]
      rfl
  | answered line _ => exact hNotified.hear

/- A failed one too. -/
theorem failed
    (hNotified : u.Notified codec)
    (hFailed : Failed u after attempts t) :
    t.Notified codec := by
  cases hFailed with
  | retry _ _ =>
      exact hNotified.extend (List.append_nil _).symm (by simp)
        (by simp) rfl (.refl _) rfl (Or.inr rfl)
        (fun h => by cases h) (fun h => by cases h)
  | gaveUp _ =>
      exact hNotified.extend rfl (by simp) (by simp) rfl (.refl _)
        rfl (Or.inr rfl) (fun h => by cases h)
        (fun h => by cases h)
  | pending message _ _ =>
      exact hNotified.extend rfl (by simp) (by simp) rfl
        (List.nil_sublist _) rfl (Or.inr rfl)
        (fun h => by cases h) (fun h => by cases h)

/- A connection that is adopted has nothing left to replay. -/
theorem adopt
    {key : String}
    {response : Option Line}
    (hNotified : s.Notified codec)
    (hKnown : s.Known codec)
    (hPhase : s.phase = .round after attempts early stage)
    (hAdopted : Adopted codec s after stage key response u) :
    (u.adopt codec after attempts key response).Notified
      codec := by
  have hU :
      u.Notified codec ∧ u.phase.initialized = none ∧
        (u.phase.live = true ∨ ¬ Replayed u.log u.conn) := by
    cases hAdopted with
    | hello key _ =>
        have hStage : s.phase.initialized = none := by
          rw [hPhase]
          rfl
        refine ⟨hNotified.newConn hKnown (List.append_nil _).symm
          (by simp) (by simp) rfl hStage, hStage, Or.inr ?_⟩
        rintro ⟨l, hMem⟩
        exact not_written_fresh hKnown _ l hMem
    | replayed key | resent key =>
        refine ⟨hNotified, ?_, Or.inl ?_⟩ <;> rw [hPhase] <;> rfl
    | answered key id line _ | forwarded key id line _ _ =>
        refine ⟨hNotified.hear, ?_, Or.inl ?_⟩
        · change s.phase.initialized = none
          rw [hPhase]
          rfl
        · change s.phase.live = true
          rw [hPhase]
          rfl
  rcases hU with ⟨hU, hStage, hReplayed⟩
  rcases u.adopt_eq codec after attempts key response with
    ⟨es, tracker, _, hEq, hEs, hTracker, _⟩
  have hShown : (u.tracking tracker).Notified codec := by
    rcases hTracker with ⟨rfl, _⟩ | ⟨line, _, _, rfl, _⟩
    · exact hU
    · exact hU.onDaemonLine
  have hReceived :
      ∀ l kind kept, Effect.received l kind kept ∉ es := by
    intro l kind kept hMem
    rcases hEs _ hMem with h | ⟨_, _, _, h⟩ <;> cases h
  have hWritten :
      ∀ c origin l, Effect.written c origin l ∉ es := by
    intro c origin l hMem
    rcases hEs _ hMem with h | ⟨_, _, _, h⟩ <;> cases h
  rw [hEq]
  rcases hReplayed with hLive | hNot
  · exact hShown.extend rfl hReceived hWritten rfl (.refl _) rfl
      (Or.inr rfl) (fun _ => ⟨hLive, rfl, hStage.symm⟩)
      (fun h => by cases h)
  · have hSame := hShown.extend
      (t := { u with
        lastKey := key
        log := u.log ++ es
        tracker := tracker.setLink .up
        phase := .disconnected })
      rfl hReceived hWritten rfl (.refl _) rfl (Or.inr rfl)
      (fun h => by cases h) (fun h => by cases h)
    refine ⟨hSame.sent, fun h => absurd rfl h, ?_,
      (fun h => by cases h), hSame.history⟩
    intro _ hAt
    exact absurd
      (Replayed.of_append (fun l => hWritten _ _ l) hAt) hNot

end Round

/- What was held is not the client's. -/
theorem takeHeld
    (hNotified : s.Notified codec) :
    (s.takeHeld codec).Notified codec := by
  rcases s.takeHeld_eq codec with ⟨es, tracker, hEq, hHeld⟩
  rw [hEq]
  rcases hHeld with ⟨_, rfl, rfl⟩ | ⟨line, _, rfl, rfl⟩
  · exact hNotified.extend rfl (by simp) (by simp) rfl (.refl _)
      rfl (Or.inl rfl) (fun h => ⟨h, rfl, rfl⟩) (fun h => h)
  · have hShown : (s.onDaemonLine codec line).Notified codec :=
      hNotified.onDaemonLine
    exact hShown.extend rfl (by simp) (by simp) rfl (.refl _) rfl
      (Or.inl rfl) (fun h => ⟨h, rfl, rfl⟩) (fun h => h)

/- A loss starts over with an empty queue. -/
theorem lost
    (hNotified : u.Notified codec)
    (hLost : Lost codec u t) :
    t.Notified codec := by
  cases hLost with
  | wait _ =>
      exact hNotified.extend rfl (by simp) (by simp) rfl
        (List.nil_sublist _) rfl (Or.inr rfl)
        (fun h => by cases h) (fun h => by cases h)
  | exit kept _ _ =>
      exact hNotified.extend (List.append_assoc _ _ _) (by simp)
        (by simp) rfl (List.nil_sublist _) rfl (Or.inr rfl)
        (fun h => by cases h) (fun h => by cases h)
  | now kept _ hUsed =>
      rw [reconnectNow_eq _ _ hUsed]
      exact hNotified.extend rfl (by simp) (by simp) rfl
        (List.nil_sublist _) rfl (Or.inr rfl)
        (fun h => by cases h) (fun h => by cases h)

end Notified

/-
  An attempt begins its replay when an earlier one of the
  round has, and the notification has been queued since.
-/
def replaysQueued
    (codec : Codec Line Value)
    (s : Session Line Value) : Event Line → Bool
| .connected _ _ =>
    match s.phase with
    | .round (some .replayDrop) _ _ .connect =>
        s.tracker.replayStarted &&
          s.queue.any (fun l => codec.isInitialized l.line)
    | _ => false
| _ => false

/-
  A step at which no queued notification is replayed keeps
  the invariant.
-/
theorem Notified.mainMove
    (hNotified : s.Notified codec)
    (hReach : (machine setup codec).Reachable s)
    (hOnce : NotifiesOnce codec t.log)
    (hGuard : s.replaysQueued codec e = false)
    (hMove : MainMove codec s e t) :
    t.Notified codec := by
  have hKnown : s.Known codec := .of_reachable hReach
  have hDelivered : s.Delivered := .of_reachable hReach
  have hCached : s.Cached codec := .of_reachable hReach
  have hReplaying : s.Replaying codec := .of_reachable hReach
  have hBefore : NotifiesOnce codec s.log :=
    hOnce.of_prefix (log_mainMove hMove)
  cases hMove with
  | hop e phase hHop =>
      have hSame :
          (phase.initialized = s.phase.initialized ∨
            phase.initialized = none) ∧
            (phase.live = true →
              s.phase.live = true ∧
                phase.initialized = s.phase.initialized) ∧
            (phase.resending = true →
              s.phase.resending = true) := by
        cases hHop with
        | flushed hPhase _ | flushing hPhase | forwarding hPhase
        | resent _ _ _ _ _ hPhase
        | replayed _ _ _ _ _ _ hPhase =>
            rw [hPhase]
            exact ⟨Or.inl rfl, fun _ => ⟨rfl, rfl⟩, fun h => h⟩
        | _ =>
            exact ⟨Or.inr rfl, fun h => (by cases h),
              fun h => (by cases h)⟩
      exact hNotified.extend (List.append_nil _).symm (by simp)
        (by simp) rfl (.refl _) rfl hSame.1
        (fun h => ⟨(hSame.2.1 h).1, rfl, (hSame.2.1 h).2⟩)
        hSame.2.2
  | close e _ =>
      exact hNotified.extend rfl (by simp) (by simp) rfl (.refl _)
        rfl (Or.inr rfl) (fun h => by cases h)
        (fun h => by cases h)
  | wait line after attempts early stage hPhase =>
      have hLog :
          (s.waitLine codec line).log =
            (s.receive codec line).log := by
        unfold Session.waitLine
        split <;> rfl
      refine hNotified.waitLine hKnown hDelivered hCached
        hReplaying (fun h => ?_) (hLog ▸ hOnce)
      rw [hPhase] at h ⊢
      simpa [Phase.live] using h
  | begin after attempts early hPhase =>
      exact hNotified.extend rfl (by simp) (by simp) rfl (.refl _)
        rfl (Or.inr rfl) (fun h => by cases h)
        (fun h => by cases h)
  | replay key exe attempts early line id hPhase hLine _ =>
      rcases hCached.handshake line hLine with ⟨id', hRequest⟩
      have hOther : codec.isInitialized line.line = false := by
        refine eq_false_of_ne_true (fun h => ?_)
        rw [Codec.request_of_isInitialized h] at hRequest
        cases hRequest
      refine hNotified.begin hKnown (by simp) hOther rfl rfl rfl
        (fun _ hQueued => ?_) (fun _ _ => rfl)
        (fun h => by cases h)
      have hStarted :=
        (hReplaying.round _ _ _ hPhase).2.2 hQueued
      have hAny :
          s.queue.any (fun l => codec.isInitialized l.line) =
            true := List.any_eq_true.mpr hQueued
      simp [replaysQueued, hPhase, hStarted, hAny] at hGuard
  | resend key exe _ _ _ stage kept _ hKept hStage =>
      have hOther : codec.isInitialized kept.line.line = false := by
        refine eq_false_of_ne_true (fun h => ?_)
        exact (hKnown.kept kept hKept).2
          (Codec.request_of_isInitialized h)
      refine hNotified.begin hKnown (by simp) hOther rfl rfl rfl
        (fun h => absurd ?_ h) (fun _ h => by cases h)
        (fun _ => rfl)
      rcases hStage with ⟨_, rfl⟩ | ⟨_, rfl⟩ <;> rfl
  | skip line exe _ _ _ _ _ _ _ _ => exact hNotified.hear
  | replayInitialized line exe _ _ _ _ _ initialized hPhase _ =>
      exact hNotified.hear.replayInitialized hKnown.hear
        (hCached.extend rfl (by simp) rfl rfl (Or.inl rfl))
        (hOnce.of_prefix (List.prefix_append _ _))
        (congrArg Phase.initialized hPhase) rfl rfl rfl rfl rfl
        rfl
  | fail e _ _ _ _ u t hPhase _ hBroken hFailed =>
      exact (hNotified.broken hKnown hPhase hBroken).failed hFailed
  | adopt e _ _ _ _ _ _ u hPhase hAdopted =>
      exact hNotified.adopt hKnown hPhase hAdopted
  | flushLine line queue hPhase hQueue =>
      exact hNotified.flushLine hKnown hDelivered hCached hBefore
        hPhase hQueue
  | forwardLine line hPhase =>
      exact hNotified.forwardLine hKnown hDelivered hCached
        (.of_reachable hReach)
        (hOnce.of_prefix (List.prefix_append _ _)) hPhase
  | waiter _ =>
      exact hNotified.extend (List.append_nil _).symm (by simp)
        (by simp) rfl (.refl _) rfl (Or.inr rfl)
        (fun h => by cases h) (fun h => by cases h)
  | loss t _ _ hLost => exact hNotified.takeHeld.lost hLost
  | awaitLine line hPhase =>
      exact hNotified.awaitLine hDelivered hPhase

end Session

------------------------------------------------------------
-- Undisturbed Runs
------------------------------------------------------------

/-
  On every connection the notification is sent at most once,
  and on one that replays the handshake it is sent before
  every request that the client has sent after it.
-/
structure InitializedOnce
    (codec : Codec Line Value)
    (log : List (Effect Line Value)) : Prop where
  once :
    ∀ before c origin l after,
      codec.isInitialized l.line = true →
        log = before ++ .written c origin l :: after →
          ∀ origin' l', codec.isInitialized l'.line = true →
            Effect.written c origin' l' ∉ after
  first :
    ∀ before c l after, Replayed before c →
      codec.request l.line ≠ none →
        log = before ++ .written c .client l :: after →
          ∀ l', Received log l' →
            codec.isInitialized l'.line = true →
              l'.number < l.number →
                ∃ origin, Effect.written c origin l' ∈ before

/-
  The runs in which no attempt begins its replay when the
  notification is queued.
-/
def undisturbed
    (setup : Setup)
    (codec : Codec Line Value) :
    Machine (Session Line Value) (Event Line) :=
  (machine setup codec).restrict
    (fun s e => s.replaysQueued codec e = false)

/-
  An invariant of the log's events gives the property of the
  log.
-/
theorem InitializedOnce.of_history
    {codec : Codec Line Value}
    {log : List (Effect Line Value)}
    (hHistory : History.Holds (Notifies codec) log) :
    InitializedOnce codec log := by
  constructor
  case once =>
    intro before c origin l after hLine hLog origin' l' hLine'
      hMem
    rcases List.append_of_mem hMem with ⟨front, back, rfl⟩
    have hSplit :
        log =
          (before ++ .written c origin l :: front) ++
            .written c origin' l' :: back := by
      rw [hLog]
      simp
    have hOther := (hHistory _ _ _ hSplit).1 hLine' origin l
      (by simp)
    rw [hLine] at hOther
    cases hOther
  case first =>
    intro before c l after hReplayed hRequest hLog l' hReceived
      hLine hNumber
    refine (hHistory _ _ _ hLog).2 rfl hRequest hReplayed l' ?_
      hLine hNumber
    rcases hReceived with ⟨kind, kept, hMem⟩
    rw [hLog] at hMem
    rcases List.mem_append.mp hMem with hMem | hMem
    · exact ⟨kind, kept, hMem⟩
    · rcases List.mem_cons.mp hMem with h | hMem
      · cases h
      · -- A line that is received later has a higher number.
        rcases List.append_of_mem hMem with ⟨front, back, rfl⟩
        have hSplit :
            log =
              (before ++ .written c .client l :: front) ++
                .received l' kind kept :: back := by
          rw [hLog]
          simp
        have hLater :=
          hHistory _ _ _ hSplit c l (by simp)
        exact absurd hNumber (Nat.lt_asymm hLater)

/-
  The run lemma, for runs whose steps all meet the
  condition.
-/
theorem Session.Notified.of_undisturbed
    {setup : Setup} {codec : Codec Line Value}
    {s : Session Line Value}
    (hReach : (undisturbed setup codec).Reachable s)
    (hOnce : NotifiesOnce codec s.log) :
    s.Notified codec := by
  rcases hReach with ⟨s₀, es, rfl, hRun⟩
  induction hRun with
  | nil =>
      constructor
      case history => exact .nil
      case reaches => exact fun h => by cases h
      all_goals simp [start, Phase.initialized, Phase.resending]
  | @snoc s t es e hFirst hStep ih =>
      have hSource : (machine setup codec).Reachable s :=
        ⟨_, _, rfl, hFirst.of_restrict⟩
      rcases Session.next_eq_some hStep.1 with hMove | hMove
      · have hBefore := hOnce.of_prefix (log_pumpMove hMove)
        exact (ih hBefore).pumpMove hMove
      · have hBefore := hOnce.of_prefix (log_mainMove hMove)
        exact (ih hBefore).mainMove hSource hOnce hStep.2 hMove

/-
  In such a run the notification reaches each connection
  once.
-/
theorem initialized_once
    {setup : Setup} {codec : Codec Line Value}
    {s : Session Line Value}
    (hReach : (undisturbed setup codec).Reachable s)
    (hOnce : NotifiesOnce codec s.log) :
    InitializedOnce codec s.log :=
  .of_history
    (Session.Notified.of_undisturbed hReach hOnce).history

------------------------------------------------------------
-- A Replay That Fails
------------------------------------------------------------

/- The notifications that the client has sent. -/
private def notifications
    (codec : Codec Line Value)
    (log : List (Effect Line Value)) : List (Numbered Line) :=
  log.filterMap fun
    | .received l _ _ =>
        if codec.isInitialized l.line then some l else none
    | _ => none

/- The notifications that were written to a connection. -/
private def notified
    (codec : Codec Line Value)
    (c : Nat)
    (log : List (Effect Line Value)) : List Origin :=
  log.filterMap fun
    | .written c' origin l =>
        if c' = c ∧ codec.isInitialized l.line = true then
          some origin
        else
          none
    | _ => none

/- A log with a single notification has it once. -/
private theorem notifiesOnce_of_eq
    {codec : Codec Line Value}
    {log : List (Effect Line Value)}
    {l : Numbered Line}
    (hOne : notifications codec log = [l]) :
    NotifiesOnce codec log := by
  have hOnly :
      ∀ l', Received log l' →
        codec.isInitialized l'.line = true → l' = l := by
    rintro l' ⟨kind, kept, hMem⟩ hLine
    have hIn : l' ∈ notifications codec log :=
      List.mem_filterMap.mpr ⟨_, hMem, by simp [hLine]⟩
    rw [hOne] at hIn
    exact List.mem_singleton.mp hIn
  intro l₁ l₂ h₁ h₂ hLine₁ hLine₂
  rw [hOnly l₁ h₁ hLine₁, hOnly l₂ h₂ hLine₂]

/- Two of them on one connection refute the property. -/
private theorem notified_le_one
    {codec : Codec Line Value}
    {log : List (Effect Line Value)}
    {c : Nat}
    {origin origin' : Origin}
    {rest : List Origin}
    (hOnce : InitializedOnce codec log) :
    notified codec c log ≠ origin :: origin' :: rest := by
  intro hTwo
  rcases List.filterMap_eq_cons_iff.mp hTwo with
    ⟨before, e, after, hLog, _, hFirst, hRest⟩
  rcases List.filterMap_eq_cons_iff.mp hRest with
    ⟨front, e', back, hAfter, _, hSecond, _⟩
  cases e <;> simp only [reduceCtorEq] at hFirst
  cases e' <;> simp only [reduceCtorEq] at hSecond
  split at hFirst
  · split at hSecond
    · rename_i h h'
      rcases h with ⟨rfl, hLine⟩
      rcases h' with ⟨rfl, hLine'⟩
      have hMem : _ ∈ after :=
        hAfter ▸ List.mem_append_right front List.mem_cons_self
      exact hOnce.once _ _ _ _ _ hLine hLog _ _ hLine' hMem
    · cases hSecond
  · cases hFirst

/- The client is initialised, and its connection is lost. -/
private def losing : List (Event (Envelope String)) :=
  [.begin, .connected "k" ⟨true, none⟩, .step,
    .client (.call "0" "initialize"), .written,
    .read (.answer "0"), .credit true, .pump, .pump, .pump,
    .pump, .pump, .cut, .pump, .lost, .step,
    .client (.call "1" "tools/call"), .begin,
    .connected "k" ⟨true, none⟩]

/- The notification of the example. -/
private def notification : Envelope String :=
  ⟨none, some initializedMethod, false, false⟩

/- The replay that has begun succeeds. -/
theorem initialized_once_queued :
    ∃ s : Session (Envelope String) String,
      notified .members 2 s.log = [.client] ∧
        InitializedOnce .members s.log := by
  let events : List (Event (Envelope String)) :=
    losing ++ [.client notification, .written,
      .answer (.answer "0") ⟨true, none⟩, .step, .written, .step]
  let test : Session (Envelope String) String → Bool := fun s =>
    decide (notified .members 2 s.log = [.client]) &&
      decide (notifications .members s.log =
        [⟨2, notification⟩])
  have hComputed :
      (events.foldlM
        (Machine.checked (Session.next .sample .members)
          (fun s e => !s.replaysQueued .members e)) .start).any
            test = true := by
    decide +kernel
  rcases Machine.Run.restrict_of_any (fun s => s = .start) _ _ _
    (fun s e h => (Bool.not_eq_true' _).mp h)
    hComputed with ⟨s, hRun, hTest⟩
  simp only [test, Bool.and_eq_true,
    decide_eq_true_eq] at hTest
  exact ⟨s, hTest.1, initialized_once ⟨_, _, rfl, hRun⟩
    (notifiesOnce_of_eq hTest.2)⟩

/-
  The replay that has begun fails, and the next attempt sends
  the notification that has been queued in the meantime.
-/
theorem initialized_twice :
    ¬ ∀ s : Session (Envelope String) String,
      (machine .sample .members).Reachable s →
        NotifiesOnce .members s.log →
          InitializedOnce .members s.log := by
  intro hAll
  rcases run_of_any .sample .members
    (losing ++ [.client notification,
      .failed (.write "broken pipe") ⟨true, none⟩, .begin,
      .connected "k" ⟨true, none⟩, .written,
      .answer (.answer "0") ⟨true, none⟩, .written, .step,
      .written, .step])
    (fun s => decide
      (notified .members 3 s.log = [.replay, .client]) &&
        decide (notifications .members s.log =
          [⟨2, notification⟩]))
    (by decide +kernel) with ⟨s, hReach, hTest⟩
  rw [Bool.and_eq_true, decide_eq_true_eq,
    decide_eq_true_eq] at hTest
  exact notified_le_one
    (hAll s hReach (notifiesOnce_of_eq hTest.2)) hTest.1

end Proxy

end Ferrex
