import Ferrex.Proxy.Moves

/-
  The lines of a daemon on their way to stdout: what the pump
  has read, shown to the tracker and queued, up to a loss of
  the connection.

  Main declarations:
    * `lines`, `Session.Orderly`
    * `lines_at_loss`
-/

------------------------------------------------------------
-- Lines of a Connection
------------------------------------------------------------

namespace Ferrex

namespace Proxy

variable {Line Value : Type}

/-
  A line of the daemon is read, shown to the tracker, and
  queued for the client.
-/
inductive Handling where
| read
| shown
| queued
deriving DecidableEq

namespace Effect

/- The line of a connection that the pump handles so. -/
def handled
    (h : Handling)
    (conn : Nat) : Effect Line Value → Option Line
| .read c line =>
    if h = .read ∧ c = conn then some line else none
| .shown c line =>
    if h = .shown ∧ c = conn then some line else none
| .queued c line =>
    if h = .queued ∧ c = conn then some line else none
| _ => none

/-
  The effects of the pump itself, which are all that these
  lists are read from.
-/
def ofPump : Effect Line Value → Bool
| .read _ _ => true
| .shown _ _ => true
| .queued _ _ => true
| _ => false

/- Any other effect handles no line at all. -/
theorem handled_of_quiet
    {e : Effect Line Value}
    (h : Handling)
    (conn : Nat)
    (hQuiet : e.ofPump = false) :
    e.handled h conn = none := by
  cases e <;> first | rfl | cases hQuiet

end Effect

/-
  The lines of one connection that the log handles so, in
  the log's order.
-/
def lines
    (h : Handling)
    (conn : Nat)
    (log : List (Effect Line Value)) : List Line :=
  log.filterMap (Effect.handled h conn)

section Lines

variable {h : Handling} {conn : Nat}
variable {log es : List (Effect Line Value)}

/- A log's lines come in the order of its parts. -/
theorem lines_append :
    lines h conn (log ++ es) =
      lines h conn log ++ lines h conn es :=
  List.filterMap_append

/- Effects of the other tasks leave the list as it was. -/
theorem lines_quiet
    (hQuiet : ∀ e ∈ es, e.ofPump = false) :
    lines h conn es = [] := by
  unfold lines
  rw [List.filterMap_eq_nil_iff]
  intro e he
  exact e.handled_of_quiet h conn (hQuiet e he)

end Lines

namespace Pump

/- The line is in the held slot. -/
def holds : Pump Line → Bool
| .tryAcquire => true
| .parked => true
| .takeHeld => true
| _ => false

/- The line that is to be shown, once it has been taken. -/
def toShow : Pump Line → List Line
| .show line => [line]
| _ => []

/-
  The line that waits for room in the queue, once it has
  been shown.
-/
def toSend : Pump Line → List Line
| .send line => [line]
| _ => []

end Pump

/- There is no connection, and the pump has stopped. -/
def Phase.away : Phase Line Value → Bool
| .round _ _ _ _ => true
| .disconnected => true
| _ => false

namespace Session

variable {codec : Codec Line Value}
variable {s t u : Session Line Value} {e : Event Line}

/- What has been read and not been shown yet. -/
def unshown (s : Session Line Value) : List Line :=
  s.pump.toShow ++ s.held.toList

/-
  A line of the connection is shown once it has been read, and
  queued once it has been shown, in order; the one that is on
  its way is held or in the hands of the pump.
-/
structure Orderly (s : Session Line Value) : Prop where
  shown :
    ∀ c, lines .read c s.log =
      lines .shown c s.log ++
        if c = s.conn then s.unshown else []
  queued :
    ∀ c, lines .shown c s.log =
      lines .queued c s.log ++
        if c = s.conn then s.pump.toSend else []
  fresh : ∀ c, s.conn < c → lines .read c s.log = []
  held : s.held.isSome = s.pump.holds
  away : s.phase.away = true → s.pump = .stopped

------------------------------------------------------------
-- Steps of the Main Task
------------------------------------------------------------

/- A step that leaves the lines of the pump alone. -/
structure Keeps (s t : Session Line Value) : Prop where
  log :
    ∃ es, t.log = s.log ++ es ∧ ∀ e ∈ es, e.ofPump = false
  held : t.held = s.held
  conn : t.conn = s.conn
  pump : t.pump = s.pump

namespace Keeps

/- A session keeps what it has. -/
theorem refl (s : Session Line Value) : Keeps s s :=
  ⟨⟨[], by simp, by simp⟩, rfl, rfl, rfl⟩

/- Two steps that each keep it keep it together. -/
theorem trans
    (hFirst : Keeps s t)
    (hSecond : Keeps t u) :
    Keeps s u := by
  rcases hFirst.log with ⟨es, hLog, hQuiet⟩
  rcases hSecond.log with ⟨fs, hLog', hQuiet'⟩
  refine ⟨⟨es ++ fs, ?_, ?_⟩, hSecond.held.trans hFirst.held,
    hSecond.conn.trans hFirst.conn,
    hSecond.pump.trans hFirst.pump⟩
  · rw [hLog', hLog, List.append_assoc]
  · intro e he
    rcases List.mem_append.mp he with he | he
    · exact hQuiet e he
    · exact hQuiet' e he

/- A step that adds one effect that is not of the pump. -/
theorem record
    {e : Effect Line Value}
    (hQuiet : e.ofPump = false) :
    Keeps s (s.record e) :=
  ⟨⟨[e], rfl, by simpa using hQuiet⟩, rfl, rfl, rfl⟩

/-
  An error goes to the client from the proxy itself, and no
  line of the daemon is touched.
-/
theorem answer
    (taken : Tracker Line Value × List Value)
    (message : String) :
    Keeps s (s.answer taken message) := by
  refine ⟨⟨_, rfl, ?_⟩, rfl, rfl, rfl⟩
  intro e he
  rcases List.mem_map.mp he with ⟨id, _, rfl⟩
  rfl

/- A step that changes neither history nor pump. -/
theorem of_log
    (hLog : t.log = s.log)
    (hHeld : t.held = s.held)
    (hConn : t.conn = s.conn)
    (hPump : t.pump = s.pump) :
    Keeps s t :=
  ⟨⟨[], by simpa using hLog, by simp⟩, hHeld, hConn, hPump⟩

/- The exit only ends the loop. -/
theorem exit (code : Nat) : Keeps s (s.exit code) :=
  ⟨⟨[.exit code], rfl, by simp [Effect.ofPump]⟩, rfl, rfl, rfl⟩

/- A client line enters the tracker, never the pump. -/
theorem receive (line : Line) :
    Keeps s (s.receive codec line) :=
  ⟨⟨[_], rfl, by simp [Effect.ofPump]⟩, rfl, rfl, rfl⟩

/-
  A line that waits for the first connection changes the
  phase alone.
-/
theorem waitLine (line : Line) :
    Keeps s (s.waitLine codec line) := by
  unfold Session.waitLine
  split
  · exact receive line
  · exact (receive line).trans (of_log rfl rfl rfl rfl)

/- A line that arrives between two rounds does as little. -/
theorem awaitLine (line : Line) :
    Keeps s (s.awaitLine codec line) := by
  unfold Session.awaitLine
  split
  · exact (receive line).trans (of_log rfl rfl rfl rfl)
  · exact receive line

/-
  Forwarding a line writes upstream, and the pump reads
  downstream.
-/
theorem forwardLine (line : Line) :
    Keeps s (s.forwardLine codec line) :=
  ((receive line).trans (record rfl)).trans
    (of_log rfl rfl rfl rfl)

/-
  A failed attempt answers the client, exits or tries again.
-/
theorem failed
    {after : Option AfterHello} {attempts : Nat}
    (hFailed : Failed u after attempts t) :
    Keeps u t := by
  cases hFailed with
  | gaveUp _ => exact exit 1
  | pending message _ _ =>
      exact (answer _ message).trans (of_log rfl rfl rfl rfl)
  | retry early _ => exact of_log rfl rfl rfl rfl

/-
  The client is told of a new daemon by the proxy itself.
-/
theorem announceKey (key : String) :
    Keeps s (s.announceKey key) := by
  refine ⟨?_, rfl, rfl, rfl⟩
  unfold Session.announceKey
  dsimp only
  split
  · exact ⟨[.listChanged], rfl, by simp [Effect.ofPump]⟩
  · exact ⟨[], by simp, by simp⟩

/- The answer to the kept request does not pass the pump. -/
theorem respond (response : Option Line) :
    Keeps s (s.respond codec response) := by
  cases response with
  | none => exact refl s
  | some line =>
      exact ⟨⟨[_], rfl, by simp [Effect.ofPump]⟩, rfl, rfl, rfl⟩

/- The kept request is only marked as pending. -/
theorem keepPending (after : AfterHello) (attempts : Nat) :
    Keeps s (s.keepPending after attempts) := by
  unfold Session.keepPending
  split
  · exact of_log rfl rfl rfl rfl
  · exact refl s

end Keeps

namespace Orderly

/-
  A step that keeps the pump's lines keeps the order, as
  long as it does not reconnect.
-/
theorem of_keeps
    (hOrderly : s.Orderly)
    (hKeeps : Keeps s t)
    (hAway : t.phase.away = true → s.phase.away = true) :
    t.Orderly := by
  rcases hKeeps with ⟨⟨es, hLog, hQuiet⟩, hHeld, hConn, hPump⟩
  have hLines :
      ∀ h c, lines h c t.log = lines h c s.log := by
    intro h c
    rw [hLog, lines_append, lines_quiet hQuiet,
      List.append_nil]
  have hUnshown : t.unshown = s.unshown := by
    unfold unshown
    rw [hPump, hHeld]
  constructor
  case shown =>
    intro c
    rw [hLines, hLines, hConn, hUnshown]
    exact hOrderly.shown c
  case queued =>
    intro c
    rw [hLines, hLines, hConn, hPump]
    exact hOrderly.queued c
  case fresh =>
    intro c hc
    rw [hLines]
    exact hOrderly.fresh c (hConn ▸ hc)
  case held =>
    rw [hHeld, hPump]
    exact hOrderly.held
  case away =>
    intro h
    rw [hPump]
    exact hOrderly.away (hAway h)

/- Without a pump, all lines have been queued. -/
theorem settled
    (hOrderly : s.Orderly)
    (hPump : s.pump = .stopped)
    (c : Nat) :
    lines .read c s.log = lines .shown c s.log ∧
      lines .shown c s.log = lines .queued c s.log ∧
        s.held = none := by
  have hHeld : s.held = none := by
    have hNone := hOrderly.held
    rw [hPump] at hNone
    exact Option.isSome_eq_false_iff.mp hNone
      |> Option.isNone_iff_eq_none.mp
  have hShown := hOrderly.shown c
  have hQueued := hOrderly.queued c
  unfold unshown at hShown
  rw [hPump, hHeld] at hShown
  rw [hPump] at hQueued
  refine ⟨?_, ?_, hHeld⟩
  · simpa [Pump.toShow] using hShown
  · simpa [Pump.toSend] using hQueued

/- The pump is replaced, and a connection may be new. -/
theorem renew
    {conn : Nat} {pump : Pump Line}
    (hOrderly : s.Orderly)
    (hStopped : s.pump = .stopped)
    (hPump : pump = .stopped ∨ pump = .reading)
    (hLog : t.log = s.log)
    (hHeld : t.held = s.held)
    (hConn : t.conn = conn ∧ s.conn ≤ conn)
    (hNew : t.pump = pump)
    (hAway : t.phase.away = true → pump = .stopped) :
    t.Orderly := by
  have hSettled := hOrderly.settled hStopped
  have hNone : s.held = none := (hSettled 0).2.2
  have hEmpty :
      pump.toShow = [] ∧ pump.toSend = [] ∧
        pump.holds = false := by
    rcases hPump with rfl | rfl <;> exact ⟨rfl, rfl, rfl⟩
  constructor
  case shown =>
    intro c
    unfold unshown
    rw [hLog, hNew, hHeld, hNone, hEmpty.1, (hSettled c).1]
    simp
  case queued =>
    intro c
    rw [hLog, hNew, hEmpty.2.1, (hSettled c).2.1]
    simp
  case fresh =>
    intro c hc
    rw [hLog]
    exact hOrderly.fresh c (by omega)
  case held =>
    rw [hNew, hHeld, hNone, hEmpty.2.2]
    rfl
  case away =>
    intro h
    rw [hNew]
    exact hAway h

section Round

variable {after : Option AfterHello}
variable {stage : Stage Line Value}

/-
  An attempt that breaks has no pump, so the old lines stay.
-/
theorem broken
    (hOrderly : s.Orderly)
    (hAway : s.phase.away = true)
    (hBroken : Broken s after stage u) :
    u.Orderly ∧ u.phase = s.phase := by
  have hStopped := hOrderly.away hAway
  cases hBroken with
  | failed => exact ⟨hOrderly, rfl⟩
  | hello _ =>
      exact ⟨hOrderly.renew hStopped (Or.inl rfl) rfl rfl
        ⟨rfl, Nat.le_succ _⟩ hStopped (fun _ => rfl), rfl⟩
  | replaying _ _ =>
      exact ⟨hOrderly.renew hStopped (Or.inl rfl) rfl rfl
        ⟨rfl, Nat.le_succ _⟩ hStopped (fun _ => rfl), rfl⟩
  | answered line _ =>
      exact ⟨hOrderly.of_keeps (.record rfl) (fun h => h), rfl⟩

/-
  Nor has an attempt that is adopted, until the new pump
  starts.
-/
theorem adopted
    {key : String} {response : Option Line}
    (hOrderly : s.Orderly)
    (hAway : s.phase.away = true)
    (hAdopted : Adopted codec s after stage key response u) :
    u.Orderly ∧ u.phase = s.phase := by
  have hStopped := hOrderly.away hAway
  cases hAdopted with
  | hello _ _ =>
      exact ⟨hOrderly.renew hStopped (Or.inl rfl) rfl rfl
        ⟨rfl, Nat.le_succ _⟩ hStopped (fun _ => rfl), rfl⟩
  | replayed => exact ⟨hOrderly, rfl⟩
  | answered _ _ _ _ =>
      exact ⟨hOrderly.of_keeps (.record rfl) (fun h => h), rfl⟩
  | resent => exact ⟨hOrderly, rfl⟩
  | forwarded _ _ _ _ _ =>
      exact ⟨hOrderly.of_keeps (.record rfl) (fun h => h), rfl⟩

/-
  A fresh pump starts with nothing read and nothing queued.
-/
theorem connected
    (hOrderly : s.Orderly)
    (hStopped : s.pump = .stopped) :
    s.connected.Orderly :=
  hOrderly.renew hStopped (Or.inr rfl) rfl rfl
    ⟨rfl, Nat.le_refl _⟩ rfl (fun h => by cases h)

/-
  The end of a round is an adoption followed by that start.
-/
theorem adopt
    {attempts : Nat} {key : String} {response : Option Line}
    (hOrderly : s.Orderly)
    (hAway : s.phase.away = true) :
    (s.adopt codec after attempts key response).Orderly := by
  have hStopped := hOrderly.away hAway
  cases after with
  | none =>
      refine connected (s := { s with lastKey := key }) ?_
        hStopped
      exact hOrderly.of_keeps (.of_log rfl rfl rfl rfl)
        (fun h => h)
  | some after =>
      have hKeeps :
          Keeps s (((s.announceKey key).respond codec
            response).keepPending after attempts) :=
        ((Keeps.announceKey key).trans (.respond response)).trans
          (.keepPending after attempts)
      refine connected (hOrderly.of_keeps hKeeps (fun _ => hAway))
        ?_
      rw [hKeeps.pump]
      exact hStopped

end Round

/- Whoever has stopped the pump may go anywhere. -/
theorem of_keeps_stopped
    (hOrderly : s.Orderly)
    (hStopped : s.pump = .stopped)
    (hKeeps : Keeps s t) :
    t.Orderly := by
  have hSame :
      ({ s with phase := .disconnected }).Orderly :=
    hOrderly.renew hStopped (Or.inl rfl) rfl rfl
      ⟨rfl, Nat.le_refl _⟩ hStopped (fun _ => rfl)
  refine hSame.of_keeps ?_ (fun _ => rfl)
  exact ⟨hKeeps.log, hKeeps.held, hKeeps.conn, hKeeps.pump⟩

/- Where the pump can be aborted it has no line in hand. -/
theorem joined
    (hOrderly : s.Orderly)
    (hPump : s.pump.joinable = true)
    (c : Nat) :
    lines .read c s.log =
        lines .shown c s.log ++
          (if c = s.conn then s.held.toList else []) ∧
      lines .shown c s.log = lines .queued c s.log := by
  have hHands :
      s.pump.toShow = [] ∧ s.pump.toSend = [] := by
    cases hAt : s.pump <;> rw [hAt] at hPump <;>
      first | exact ⟨rfl, rfl⟩ | cases hPump
  have hShown := hOrderly.shown c
  have hQueued := hOrderly.queued c
  unfold unshown at hShown
  rw [hHands.1] at hShown
  rw [hHands.2, ite_self, List.append_nil] at hQueued
  exact ⟨hShown, hQueued⟩

/- What has been queued once the held line has been taken. -/
theorem takeHeld
    (hOrderly : s.Orderly)
    (hPump : s.pump.joinable = true)
    (h : Handling)
    (c : Nat) :
    lines h c (s.takeHeld codec).log = lines .read c s.log ∧
      (s.takeHeld codec).held = none := by
  rcases hOrderly.joined hPump c with ⟨hShown, hQueued⟩
  unfold Session.takeHeld
  cases hHeld : s.held with
  | none =>
      rw [hHeld] at hShown
      simp only [Option.toList_none, List.append_nil,
        ite_self] at hShown
      refine ⟨?_, hHeld⟩
      cases h with
      | read => rfl
      | shown => exact hShown.symm
      | queued => rw [hShown, hQueued]
  | some line =>
      rw [hHeld] at hShown
      refine ⟨?_, rfl⟩
      change lines h c
        (s.log ++ [.shown s.conn line] ++
          [.queued s.conn line]) = _
      rw [lines_append, lines_append]
      by_cases hConn : s.conn = c
      · cases h with
        | read => simp [lines, Effect.handled]
        | shown =>
            rw [hShown]
            simp [lines, Effect.handled, hConn]
        | queued =>
            rw [hShown, hQueued]
            simp [lines, Effect.handled, hConn]
      · cases h with
        | read => simp [lines, Effect.handled]
        | shown =>
            rw [hShown]
            simp [lines, Effect.handled, hConn, Ne.symm hConn]
        | queued =>
            rw [hShown, hQueued]
            simp [lines, Effect.handled, hConn, Ne.symm hConn]

/-
  Once what was held is handled, the lost connection has no
  line on its way.
-/
theorem linkDown
    (hOrderly : s.Orderly)
    (hPump : s.pump.joinable = true) :
    (s.takeHeld codec).linkDown.Orderly := by
  have hTaken :
      ∀ h c, lines h c (s.takeHeld codec).log =
        lines .read c s.log ∧ (s.takeHeld codec).held = none :=
    hOrderly.takeHeld hPump
  have hConn : (s.takeHeld codec).conn = s.conn := by
    unfold Session.takeHeld
    split <;> rfl
  constructor
  case shown =>
    intro c
    change lines .read c (s.takeHeld codec).log =
      lines .shown c (s.takeHeld codec).log ++
        if _ then (s.takeHeld codec).held.toList else []
    rw [(hTaken .read c).1, (hTaken .shown c).1,
      (hTaken .read c).2]
    simp
  case queued =>
    intro c
    change lines .shown c (s.takeHeld codec).log =
      lines .queued c (s.takeHeld codec).log ++
        if _ then [] else []
    rw [(hTaken .shown c).1, (hTaken .queued c).1]
    simp
  case fresh =>
    intro c hc
    change lines .read c (s.takeHeld codec).log = []
    rw [(hTaken .read c).1]
    refine hOrderly.fresh c ?_
    change (s.takeHeld codec).conn < c at hc
    rw [← hConn]
    exact hc
  case held =>
    change (s.takeHeld codec).held.isSome = false
    rw [(hTaken .read 0).2]
    rfl
  case away => exact fun _ => rfl

/- What a loss queues after that are errors, or the exit. -/
theorem lost
    (hLost : Lost codec u t) :
    Keeps u.linkDown t := by
  cases hLost with
  | wait _ => exact (Keeps.answer _ _).trans (.of_log rfl rfl rfl rfl)
  | exit kept _ _ => exact (Keeps.answer _ _).trans (.exit 1)
  | now kept _ hUsed =>
      unfold reconnectNow
      rw [if_neg (Nat.not_le.mpr hUsed)]
      exact (Keeps.answer _ _).trans (.of_log rfl rfl rfl rfl)

/- The main loop's moves keep the order, case by case. -/
theorem mainMove
    (hOrderly : s.Orderly)
    (hMove : MainMove codec s e t) :
    t.Orderly := by
  cases hMove with
  | hop e phase hHop =>
      refine hOrderly.of_keeps (.of_log rfl rfl rfl rfl)
        (fun h => ?_)
      cases hHop with
      | replayed _ _ _ _ _ _ hPhase => rw [hPhase]; rfl
      | resent _ _ _ _ _ hPhase => rw [hPhase]; rfl
      | _ => cases h
  | close e _ =>
      exact hOrderly.of_keeps (.exit 0) (fun h => by cases h)
  | wait line _ _ _ _ hPhase =>
      exact hOrderly.of_keeps (.waitLine line)
        (fun _ => by rw [hPhase]; rfl)
  | begin after attempts early hPhase =>
      exact hOrderly.of_keeps
        ((Keeps.record rfl).trans (.of_log rfl rfl rfl rfl))
        (fun _ => by rw [hPhase]; rfl)
  | replay key exe attempts early line id hPhase _ _ =>
      have hStopped := hOrderly.away (by rw [hPhase]; rfl)
      have hNew : ({ s with conn := s.conn + 1 }).Orderly :=
        hOrderly.renew hStopped (Or.inl rfl) rfl rfl
          ⟨rfl, Nat.le_succ _⟩ hStopped (fun _ => rfl)
      refine hNew.of_keeps ?_ (fun _ => by rw [hPhase]; rfl)
      exact ⟨⟨[_], rfl, by simp [Effect.ofPump]⟩, rfl, rfl, rfl⟩
  | resend key exe after attempts early stage kept hPhase _ _ =>
      have hStopped := hOrderly.away (by rw [hPhase]; rfl)
      have hNew : ({ s with conn := s.conn + 1 }).Orderly :=
        hOrderly.renew hStopped (Or.inl rfl) rfl rfl
          ⟨rfl, Nat.le_succ _⟩ hStopped (fun _ => rfl)
      refine hNew.of_keeps ?_ (fun _ => by rw [hPhase]; rfl)
      exact ⟨⟨[_], rfl, by simp [Effect.ofPump]⟩, rfl, rfl, rfl⟩
  | skip line exe _ _ _ _ _ hPhase _ _ =>
      exact hOrderly.of_keeps (.record rfl) (fun h => h)
  | replayInitialized line exe _ _ _ _ _ _ hPhase _ =>
      refine hOrderly.of_keeps ?_ (fun _ => by rw [hPhase]; rfl)
      exact ((Keeps.record rfl).trans (.record rfl)).trans
        (.of_log rfl rfl rfl rfl)
  | fail e _ _ _ _ u t hPhase _ hBroken hFailed =>
      have hAway : s.phase.away = true := by rw [hPhase]; rfl
      rcases hOrderly.broken hAway hBroken with ⟨hU, hSame⟩
      refine hU.of_keeps (.failed hFailed) (fun _ => ?_)
      rw [hSame]
      exact hAway
  | adopt e _ _ _ _ _ _ u hPhase hAdopted =>
      have hAway : s.phase.away = true := by rw [hPhase]; rfl
      rcases hOrderly.adopted hAway hAdopted with ⟨hU, hSame⟩
      exact hU.adopt (by rw [hSame]; exact hAway)
  | flushLine line queue hPhase _ =>
      refine hOrderly.of_keeps ?_ (fun h => by cases h)
      exact ⟨⟨[_], rfl, by simp [Effect.ofPump]⟩, rfl, rfl, rfl⟩
  | forwardLine line _ =>
      exact hOrderly.of_keeps (.forwardLine line)
        (fun h => by cases h)
  | waiter _ =>
      exact hOrderly.of_keeps (.of_log rfl rfl rfl rfl)
        (fun h => by cases h)
  | loss t _ hPump hLost =>
      have hDown : (s.takeHeld codec).linkDown.Orderly :=
        hOrderly.linkDown hPump
      exact hDown.of_keeps_stopped rfl (lost hLost)
  | awaitLine line hPhase =>
      exact hOrderly.of_keeps (.awaitLine line)
        (fun _ => by rw [hPhase]; rfl)

------------------------------------------------------------
-- Steps of the Pump
------------------------------------------------------------

/- A step of a pump that runs. -/
theorem pump
    {es : List (Effect Line Value)}
    (hOrderly : s.Orderly)
    (hRuns : s.pump ≠ .stopped)
    (hPhase : t.phase = s.phase)
    (hConn : t.conn = s.conn)
    (hLog : t.log = s.log ++ es)
    (hFresh :
      ∀ h c, s.conn ≠ c → lines h c es = [])
    (hShown :
      s.unshown ++ lines .read s.conn es =
        lines .shown s.conn es ++ t.unshown)
    (hQueued :
      s.pump.toSend ++ lines .shown s.conn es =
        lines .queued s.conn es ++ t.pump.toSend)
    (hHeld : t.held.isSome = t.pump.holds) :
    t.Orderly := by
  constructor
  case shown =>
    intro c
    rw [hLog, lines_append, lines_append, hOrderly.shown c,
      hConn]
    by_cases hc : c = s.conn
    · rw [hc, if_pos rfl, if_pos rfl, List.append_assoc,
        hShown, List.append_assoc]
    · rw [if_neg hc, if_neg hc, hFresh .read c (Ne.symm hc),
        hFresh .shown c (Ne.symm hc)]
  case queued =>
    intro c
    rw [hLog, lines_append, lines_append, hOrderly.queued c,
      hConn]
    by_cases hc : c = s.conn
    · rw [hc, if_pos rfl, if_pos rfl, List.append_assoc,
        hQueued, List.append_assoc]
    · rw [if_neg hc, if_neg hc, hFresh .shown c (Ne.symm hc),
        hFresh .queued c (Ne.symm hc)]
  case fresh =>
    intro c hc
    rw [hConn] at hc
    rw [hLog, lines_append, hOrderly.fresh c hc,
      hFresh .read c (by omega)]
    rfl
  case held => exact hHeld
  case away =>
    intro h
    rw [hPhase] at h
    exact absurd (hOrderly.away h) hRuns

/- A step of the pump that handles no line. -/
theorem turn
    {pump : Pump Line}
    (hOrderly : s.Orderly)
    (hTurn : Turn s pump) :
    (s.pumping pump).Orderly := by
  have hHeld := hOrderly.held
  have hSame :
      s.pump ≠ .stopped ∧ pump.toShow = s.pump.toShow ∧
        pump.toSend = s.pump.toSend ∧
          pump.holds = s.pump.holds := by
    cases hTurn
    case free hPump =>
      rcases hPump with hPump | hPump <;> rw [hPump] <;>
        exact ⟨(fun h => by cases h), rfl, rfl, rfl⟩
    case taken hPump hNone =>
      rw [hPump, hNone] at hHeld
      cases hHeld
    case cut hPump | full hPump | inFlight hPump _ |
      answered hPump _ | ended hPump =>
        rw [hPump]
        exact ⟨(fun h => by cases h), rfl, rfl, rfl⟩
  rcases hSame with ⟨hRuns, hShow, hSend, hHolds⟩
  refine hOrderly.pump hRuns rfl rfl (List.append_nil _).symm
    (fun _ _ _ => rfl) ?_ ?_ ?_
  · change s.unshown ++ [] =
      [] ++ (pump.toShow ++ s.held.toList)
    rw [hShow]
    simp [unshown]
  · change s.pump.toSend ++ [] = [] ++ pump.toSend
    rw [hSend]
    simp
  · change s.held.isSome = pump.holds
    rw [hHolds]
    exact hHeld

/-
  And so do the pump's, which pass a line on from read to
  shown to queued.
-/
theorem pumpMove
    (hOrderly : s.Orderly)
    (hMove : PumpMove codec s e t) :
    t.Orderly := by
  have hHeld := hOrderly.held
  cases hMove with
  | turn e pump hTurn => exact hOrderly.turn hTurn
  | read line hPump =>
      rw [hPump] at hHeld
      have hNone : s.held = none := by simpa [Pump.holds] using hHeld
      refine hOrderly.pump (by simp [hPump]) rfl rfl rfl
        (fun h c hc => ?_) ?_ ?_ rfl
      · simp [lines, Effect.handled, hc]
      · simp [lines, Effect.handled, unshown, pumping, record,
          hPump, hNone, Pump.toShow]
      · simp [lines, Effect.handled, pumping, hPump, Pump.toSend]
  | takeHeld line hPump hLine =>
      refine hOrderly.pump (by simp [hPump]) rfl rfl
        (List.append_nil _).symm (fun _ _ _ => rfl) ?_ ?_ rfl
      · simp [lines, unshown, pumping, hPump, hLine, Pump.toShow]
      · simp [lines, pumping, hPump, Pump.toSend]
  | «show» line hPump =>
      rw [hPump] at hHeld
      have hNone : s.held = none := by simpa [Pump.holds] using hHeld
      refine hOrderly.pump (by simp [hPump]) rfl rfl rfl
        (fun h c hc => ?_) ?_ ?_ hHeld
      · simp [lines, Effect.handled, hc]
      · simp [lines, Effect.handled, unshown, pumping, record,
          onDaemonLine, tracking, hPump, hNone, Pump.toShow]
      · simp [lines, Effect.handled, pumping, hPump, Pump.toSend]
  | send line hPump =>
      rw [hPump] at hHeld
      have hNone : s.held = none := by simpa [Pump.holds] using hHeld
      refine hOrderly.pump (by simp [hPump]) rfl rfl rfl
        (fun h c hc => ?_) ?_ ?_ hHeld
      · simp [lines, Effect.handled, hc]
      · simp [lines, Effect.handled, unshown, pumping, record,
          hPump, hNone, Pump.toShow]
      · simp [lines, Effect.handled, pumping, hPump, Pump.toSend]
  | notify hPump =>
      rw [hPump] at hHeld
      refine hOrderly.pump (by simp [hPump]) rfl rfl
        (List.append_nil _).symm (fun _ _ _ => rfl) ?_ ?_ hHeld
      · simp [lines, unshown, pumping, hPump, Pump.toShow]
      · simp [lines, pumping, hPump, Pump.toSend]

/- Nothing has been read at the start. -/
theorem start : (Session.start : Session Line Value).Orderly where
  shown _ := (ite_self _).symm
  queued _ := (ite_self _).symm
  fresh _ _ := rfl
  held := rfl
  away _ := rfl

/-
  So the order holds in every state that a session can
  reach.
-/
theorem of_reachable
    {setup : Setup}
    (hReach : (machine setup codec).Reachable s) :
    s.Orderly :=
  invariant_of_reachable start
    (fun _ _ _ hOrderly hMove => hOrderly.pumpMove hMove)
    (fun _ _ _ hOrderly hMove => hOrderly.mainMove hMove) hReach

end Orderly

end Session

------------------------------------------------------------
-- A Loss
------------------------------------------------------------

/- What a loss queues once the lines have been. -/
def Effect.ends : Effect Line Value → Bool
| .error _ _ => true
| .exit _ => true
| _ => false

section Loss

variable {setup : Setup} {codec : Codec Line Value}
variable {s t u : Session Line Value}

/-
  What was held is handled first, and this ends no request.
-/
theorem Session.takeHeld_log
    (codec : Codec Line Value)
    (s : Session Line Value) :
    ∃ handled, (s.takeHeld codec).log = s.log ++ handled ∧
      ∀ e ∈ handled, e.ends = false := by
  unfold takeHeld
  split
  · rename_i line _
    exact ⟨[.shown s.conn line, .queued s.conn line],
      List.append_assoc _ _ _, by simp [Effect.ends]⟩
  · exact ⟨[], (List.append_nil _).symm, by simp⟩

/-
  An answer to several ids logs their errors and nothing
  else.
-/
theorem Session.answer_log
    (taken : Tracker Line Value × List Value)
    (message : String) :
    ∃ errors, (s.answer taken message).log = s.log ++ errors ∧
      ∀ e ∈ errors, e.ends = true := by
  refine ⟨_, rfl, ?_⟩
  intro e he
  rcases List.mem_map.mp he with ⟨id, _, rfl⟩
  rfl

/-
  A loss logs errors, and the exit if the proxy gives up.
-/
theorem Lost.log
    (hLost : Lost codec u t) :
    ∃ errors, t.log = u.log ++ errors ∧
      ∀ e ∈ errors, e.ends = true := by
  cases hLost with
  | wait _ => exact u.linkDown.answer_log _ _
  | exit kept _ _ =>
      rcases u.linkDown.answer_log
        (u.linkDown.tracker.takeInFlightExcept codec kept.id)
        restartMessage with ⟨errors, hLog, hEnds⟩
      refine ⟨errors ++ [.exit 1], ?_, ?_⟩
      · change _ ++ [Effect.exit 1] = _
        rw [hLog, ← List.append_assoc]
        rfl
      · intro e he
        rcases List.mem_append.mp he with he | he
        · exact hEnds e he
        · rw [List.mem_singleton.mp he]
          rfl
  | now kept _ hUsed =>
      unfold Session.reconnectNow
      rw [if_neg (Nat.not_le.mpr hUsed)]
      exact u.linkDown.answer_log _ _

end Loss

/-
  When a connection is lost and the pump has been aborted, the
  lines that were queued from it and the held one are those
  that the pump had read, in order.  The loss queues the held
  one, and all of them have been shown before it queues errors.
-/
theorem lines_at_loss
    {setup : Setup} {codec : Codec Line Value}
    {s t : Session Line Value}
    (hReach : (machine setup codec).Reachable s)
    (hPhase : s.phase = .loss)
    (hNext : s.next setup codec .step = some t) :
    lines .queued s.conn s.log ++ s.held.toList =
        lines .read s.conn s.log ∧
      (∃ handled errors,
        t.log = s.log ++ handled ++ errors ∧
          (∀ e ∈ handled, e.ends = false) ∧
          (∀ e ∈ errors, e.ends = true) ∧
          lines .shown s.conn (s.log ++ handled) =
            lines .read s.conn s.log ∧
          lines .queued s.conn (s.log ++ handled) =
            lines .read s.conn s.log) ∧
      ∀ c, c ≠ s.conn →
        lines .queued c s.log = lines .read c s.log := by
  have hOrderly := Session.Orderly.of_reachable hReach
  have hLoss :
      s.pump.joinable = true ∧
        Lost codec (s.takeHeld codec) t := by
    simp only [Session.next, Session.mainNext, hPhase] at hNext
    split at hNext <;> cases hNext
    exact ⟨‹_›, Session.lost_onLoss s⟩
  rcases s.takeHeld_log codec with
    ⟨handled, hHandled, hQuiet⟩
  rcases hLoss.2.log with ⟨errors, hLog, hEnds⟩
  rw [hHandled] at hLog
  have hTaken :
      ∀ h, lines h s.conn (s.log ++ handled) =
        lines .read s.conn s.log := by
    intro h
    rw [← hHandled]
    exact (hOrderly.takeHeld hLoss.1 h s.conn).1
  refine ⟨?_, ⟨handled, errors, hLog, hQuiet, hEnds,
    hTaken .shown, hTaken .queued⟩, ?_⟩
  · rcases hOrderly.joined hLoss.1 s.conn with
      ⟨hShown, hQueued⟩
    rw [hShown, hQueued, if_pos rfl]
  · intro c hc
    rw [hOrderly.shown c, hOrderly.queued c, if_neg hc,
      if_neg hc, List.append_nil, List.append_nil]

/-
  The pump is parked with the answer when the write of the
  next request fails.
-/
theorem lines_at_loss_parked :
    ∃ s t : Session (Envelope String) String,
      s.held = some (.answer "1") ∧
        s.next .sample .members .step = some t ∧
          lines .queued s.conn s.log ++ s.held.toList =
            lines .read s.conn s.log := by
  let exe : Exe := ⟨true, none⟩
  rcases run_of_any .sample .members
    [.begin, .connected "k" exe, .step,
      .client (.call "1" "tools/list"), .written,
      .read (.answer "1"), .credit false,
      .client (.call "2" "tools/list"), .writeFailed]
    (fun s => decide (s.held = some (.answer "1")) &&
      decide (s.phase = .loss) &&
        (s.next .sample .members .step).isSome)
    (by decide +kernel) with ⟨s, hReach, hTest⟩
  simp only [Bool.and_eq_true, decide_eq_true_eq] at hTest
  rcases hTest with ⟨⟨hHeld, hPhase⟩, hSome⟩
  rcases Option.isSome_iff_exists.mp hSome with ⟨t, hNext⟩
  exact ⟨s, t, hHeld, hNext,
    (lines_at_loss hReach hPhase hNext).1⟩

end Proxy

end Ferrex
