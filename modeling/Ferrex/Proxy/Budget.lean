import Mathlib.Algebra.Ring.Nat
import Ferrex.Lib.Semaphore
import Ferrex.Lib.Transition

/-
  The way of daemon lines to stdout: the budget that meters
  them, the pump that waits for it, the thread that writes
  them, and the call that waits for stdout to stall.

  Main declarations:
    * `cost`, `Park`, `Pump`, `Watcher`
    * `Output`, `Event`, `Output.next`, `machine`
    * `Move`, `Output.move_of_next`
    * `Output.parkedBehind`, `Output.reachable_parkedBehind`
-/

------------------------------------------------------------
-- State
------------------------------------------------------------

namespace Ferrex

namespace Proxy

namespace Budget

/- Lines are counted in bytes here. -/
abbrev Bytes := List UInt8

/- 4 MiB may wait for the client. -/
def stdoutBudget : Nat := 4 * 1024 * 1024

/- One second, in nanoseconds. -/
def stallGrace : Nat := 1000000000

/- The byte that ends a line. -/
def newline : UInt8 := 10

/- The share of the budget that `hold_until_free` takes. -/
def cost (line : Bytes) : Nat :=
  let n := min line.length stdoutBudget
  if n < 2 ^ 32 then n else 2 ^ 32 - 1

/- An empty line is never read, so a share is never empty. -/
theorem cost_eq
    (line : Bytes) :
    cost line = min line.length stdoutBudget := by
  unfold cost
  have hSmall : min line.length stdoutBudget < 2 ^ 32 :=
    Nat.lt_of_le_of_lt (Nat.min_le_right _ _) (by decide)
  exact if_pos hSmall

/-
  Since when the pump waits, and the number of this wait.
-/
structure Park where
  seq : Nat
  since : Option Nat
deriving DecidableEq

/-
  What `pump_daemon` does next, with the share of its line, or
  the permits that it has taken.  Within `hold_until_free` it
  tries to take them, then starts its park, notifies the
  waiters, and acquires them.  A pump that was aborted has
  joined until the line in its hand has been taken.
-/
inductive Pump where
| stopped
| joined
| reading
| trying (cost : Nat)
| starting (cost : Nat)
| announcing (cost : Nat)
| requesting (cost : Nat)
| parked (cost : Nat)
| taking (credit : Nat)
| show (line : Bytes) (credit : Nat)
| send (line : Bytes) (credit : Nat)
| check
| notify
| ended
| done
deriving DecidableEq

/-
  What the writer is given: a line with what it cost, or the
  end.
-/
inductive Out where
| line (line : Bytes) (credit : Option Nat)
| exit (code : Nat)
deriving DecidableEq

/-
  Where a call of `stalled` is: its waiter has been created,
  and may have been notified since, it awaits it, or it sleeps
  with the park that it has read.
-/
inductive Watcher where
| idle
| looking (notified : Bool)
| waiting (notified : Bool)
| sleeping (park : Park)
| stalled
deriving DecidableEq

/- What happens to the parks, as a history. -/
inductive Entry where
| begun (seq : Nat) (instant : Nat)
| ended
| stalled (seq : Nat) (instant : Nat)
deriving DecidableEq

/- The output side of the proxy as one state. -/
structure Output where
  permits : Semaphore
  held : Option Bytes
  park : Park
  pump : Pump
  queue : List Out
  writing : Option Out
  watcher : Watcher
  now : Nat
  exited : Bool
  log : List Entry
deriving DecidableEq

namespace Output

/- Nothing is held, queued or written at the start. -/
def start : Output where
  permits := .new stdoutBudget
  held := none
  park := ⟨0, none⟩
  pump := .stopped
  queue := []
  writing := none
  watcher := .idle
  now := 0
  exited := false
  log := []

/- The pump is at another stage. -/
def pumping (s : Output) (pump : Pump) : Output :=
  { s with pump := pump }

/- One more entry in the queue. -/
def push (s : Output) (out : Out) : Output :=
  { s with queue := s.queue ++ [out] }

/- `Parked::start` -/
def startPark (s : Output) : Output :=
  { s with
    park := ⟨(s.park.seq + 1) % 2 ^ 64, some s.now⟩
    log := s.log ++ [.begun ((s.park.seq + 1) % 2 ^ 64) s.now] }

/- `Parked::drop` -/
def endPark (s : Output) : Output :=
  { s with
    park := { s.park with since := none }
    log := s.log ++ [.ended] }

end Output

/- `notify_waiters` reaches the waiters that exist. -/
def Watcher.wake : Watcher → Watcher
| .looking _ => .looking true
| .waiting _ => .waiting true
| w => w

------------------------------------------------------------
-- Steps
------------------------------------------------------------

/-
  `read` and `cut` are what the pump reads, `pump` its next
  step, and `checked` what the tracker tells it.  `abort`,
  `loss` and `connect` are those of the main task, which also
  sends lines of its own and the exit.  `recv`, `wrote` and
  `writeFailed` are those of the writer thread, `watch`,
  `look` and `unwatch` those of `stalled`.
-/
inductive Event where
| read (line : Bytes)
| cut
| pump
| checked (inFlight : Bool)
| abort
| loss
| connect
| send (line : Bytes)
| exit (code : Nat)
| recv
| wrote
| writeFailed
| tick (d : Nat)
| watch
| look
| unwatch
deriving DecidableEq

namespace Output

/- The pump's next step. -/
def pumpNext (s : Output) : Option Output :=
  match s.pump with
  | .trying c =>
      match s.permits.tryAcquire c with
      | some permits =>
          some { s with permits := permits, pump := .taking c }
      | none => some (s.pumping (.starting c))
  | .starting c => some (s.startPark.pumping (.announcing c))
  | .announcing c =>
      some
        { s with
          watcher := s.watcher.wake
          pump := .requesting c }
  | .requesting c =>
      (s.permits.enqueue c).map (fun permits =>
        { s with permits := permits, pump := .parked c })
  | .parked _ =>
      s.permits.take.map (fun taken =>
        { s.endPark with
          permits := taken.2
          pump := .taking taken.1 })
  | .taking credit =>
      match s.held with
      | some line =>
          some { s with held := none, pump := .show line credit }
      | none =>
          some
            { s with
              permits := s.permits.release credit
              pump := .ended }
  -- `on_daemon_line`, which the budget has no part in.
  | .show line credit => some (s.pumping (.send line credit))
  | .send line credit =>
      some ((s.push (.line line (some credit))).pumping .check)
  | .notify => some (s.pumping .reading)
  | .ended => some (s.pumping .done)
  | _ => none

/- The pump is aborted at an await, or it has returned. -/
def abort (s : Output) : Option Output :=
  match s.pump with
  | .reading => some (s.pumping .joined)
  | .requesting _ => some (s.endPark.pumping .joined)
  | .parked _ =>
      some
        { s.endPark with
          permits := s.permits.cancel
          pump := .joined }
  | .done => some (s.pumping .joined)
  | _ => none

/- The writer's next step. -/
def writerNext (s : Output) : Event → Option Output
| .recv =>
    match s.writing, s.queue with
    | none, .line line credit :: queue =>
        some
          { s with
            writing := some (.line line credit)
            queue := queue }
    | none, .exit _ :: _ => some { s with exited := true }
    | _, _ => none
| .wrote =>
    match s.writing with
    | some (.line _ (some credit)) =>
        some
          { s with
            writing := none
            permits := s.permits.release credit }
    | some _ => some { s with writing := none }
    | none => none
| .writeFailed => some { s with exited := true }
| _ => none

/- The watcher's next step. -/
def watcherNext (s : Output) : Option Output :=
  match s.watcher with
  | .looking notified =>
      match s.park.since with
      | none => some { s with watcher := .waiting notified }
      | some _ => some { s with watcher := .sleeping s.park }
  | .waiting true => some { s with watcher := .looking false }
  | .sleeping park =>
      match park.since with
      | none => none
      | some since =>
          if since + stallGrace ≤ s.now then
            if s.park = park then
              some
                { s with
                  watcher := .stalled
                  log := s.log ++ [.stalled park.seq s.now] }
            else
              some { s with watcher := .looking false }
          else
            none
  | _ => none

/- One step of one of the tasks; none after the exit. -/
def next (s : Output) (e : Event) : Option Output :=
  if s.exited then
    none
  else
    match e with
    | .read line =>
        match s.pump with
        | .reading =>
            if line.getLast? = some newline then
              some
                { s with
                  held := some line
                  pump := .trying (cost line) }
            else
              none
        | _ => none
    | .cut =>
        match s.pump with
        | .reading => some (s.pumping .ended)
        | _ => none
    | .pump => s.pumpNext
    | .checked inFlight =>
        match s.pump with
        | .check =>
            some (s.pumping (if inFlight then .reading else .notify))
        | _ => none
    | .abort => s.abort
    | .loss =>
        match s.pump, s.held with
        | .joined, some line =>
            some
              (({ s with held := none }.push
                (.line line none)).pumping .stopped)
        | .joined, none => some (s.pumping .stopped)
        | _, _ => none
    | .connect =>
        match s.pump with
        | .stopped => some (s.pumping .reading)
        | _ => none
    | .send line => some (s.push (.line line none))
    | .exit code => some (s.push (.exit code))
    | .tick d => some { s with now := s.now + d }
    | .watch =>
        match s.watcher with
        | .idle => some { s with watcher := .looking false }
        | _ => none
    | .look => s.watcherNext
    | .unwatch => some { s with watcher := .idle }
    | e => s.writerNext e

end Output

/- The tasks in any order of steps. -/
def machine : Machine Output Event :=
  .ofNext (fun s => s = .start) Output.next

------------------------------------------------------------
-- What a Step Can Do
------------------------------------------------------------

/- The pump goes on, and nothing else changes. -/
inductive Turn (s : Output) : Event → Pump → Prop
| cut (hPump : s.pump = .reading) : Turn s .cut .ended
| full (c : Nat)
    (hPump : s.pump = .trying c)
    (hFull : s.permits.tryAcquire c = none) :
    Turn s .pump (.starting c)
| shown (line : Bytes) (credit : Nat)
    (hPump : s.pump = .show line credit) :
    Turn s .pump (.send line credit)
| inFlight (hPump : s.pump = .check) :
    Turn s (.checked true) .reading
| answered (hPump : s.pump = .check) :
    Turn s (.checked false) .notify
| notified (hPump : s.pump = .notify) : Turn s .pump .reading
| ended (hPump : s.pump = .ended) : Turn s .pump .done
| aborted (hPump : s.pump = .reading) : Turn s .abort .joined
| returned (hPump : s.pump = .done) : Turn s .abort .joined
| emptyHanded
    (hPump : s.pump = .joined)
    (hHeld : s.held = none) :
    Turn s .loss .stopped
| connected (hPump : s.pump = .stopped) :
    Turn s .connect .reading

/- Where a step takes the watcher, and what it records. -/
inductive Watch (s : Output) :
    Event → Watcher → List Entry → Prop
| called (hWatcher : s.watcher = .idle) :
    Watch s .watch (.looking false) []
| free (notified : Bool)
    (hWatcher : s.watcher = .looking notified)
    (hSince : s.park.since = none) :
    Watch s .look (.waiting notified) []
| parked (notified : Bool) (since : Nat)
    (hWatcher : s.watcher = .looking notified)
    (hSince : s.park.since = some since) :
    Watch s .look (.sleeping s.park) []
| woken (hWatcher : s.watcher = .waiting true) :
    Watch s .look (.looking false) []
| changed (park : Park) (since : Nat)
    (hWatcher : s.watcher = .sleeping park)
    (hSince : park.since = some since)
    (hGrace : since + stallGrace ≤ s.now)
    (hPark : s.park ≠ park) :
    Watch s .look (.looking false) []
| stalled (since : Nat)
    (hWatcher : s.watcher = .sleeping s.park)
    (hSince : s.park.since = some since)
    (hGrace : since + stallGrace ≤ s.now) :
    Watch s .look .stalled [.stalled s.park.seq s.now]
| dropped : Watch s .unwatch .idle []

/- The permits that go back with a line that is written. -/
def Out.credit : Out → Nat
| .line _ (some credit) => credit
| _ => 0

/- All that a step can do. -/
inductive Move (s : Output) : Event → Output → Prop
| turn (e : Event) (pump : Pump) (hTurn : Turn s e pump) :
    Move s e (s.pumping pump)
| read (line : Bytes)
    (hPump : s.pump = .reading)
    (hLine : line.getLast? = some newline) :
    Move s (.read line)
      { s with held := some line, pump := .trying (cost line) }
| acquired (c : Nat) (permits : Semaphore)
    (hPump : s.pump = .trying c)
    (hFree : s.permits.tryAcquire c = some permits) :
    Move s .pump { s with permits := permits, pump := .taking c }
| began (c : Nat)
    (hPump : s.pump = .starting c) :
    Move s .pump (s.startPark.pumping (.announcing c))
| announced (c : Nat)
    (hPump : s.pump = .announcing c) :
    Move s .pump
      { s with watcher := s.watcher.wake, pump := .requesting c }
| requested (c : Nat) (permits : Semaphore)
    (hPump : s.pump = .requesting c)
    (hQueued : s.permits.enqueue c = some permits) :
    Move s .pump { s with permits := permits, pump := .parked c }
| resumed (c n : Nat) (permits : Semaphore)
    (hPump : s.pump = .parked c)
    (hTaken : s.permits.take = some (n, permits)) :
    Move s .pump
      { s.endPark with permits := permits, pump := .taking n }
| taken (line : Bytes) (credit : Nat)
    (hPump : s.pump = .taking credit)
    (hHeld : s.held = some line) :
    Move s .pump
      { s with held := none, pump := .show line credit }
| dropped (credit : Nat)
    (hPump : s.pump = .taking credit)
    (hHeld : s.held = none) :
    Move s .pump
      { s with
        permits := s.permits.release credit
        pump := .ended }
| sent (line : Bytes) (credit : Nat)
    (hPump : s.pump = .send line credit) :
    Move s .pump
      ((s.push (.line line (some credit))).pumping .check)
| withdrawn (c : Nat)
    (hPump : s.pump = .requesting c) :
    Move s .abort (s.endPark.pumping .joined)
| cancelled (c : Nat)
    (hPump : s.pump = .parked c) :
    Move s .abort
      { s.endPark with
        permits := s.permits.cancel
        pump := .joined }
| lost (line : Bytes)
    (hPump : s.pump = .joined)
    (hHeld : s.held = some line) :
    Move s .loss
      (({ s with held := none }.push
        (.line line none)).pumping .stopped)
| queued (line : Bytes) :
    Move s (.send line) (s.push (.line line none))
| exiting (code : Nat) :
    Move s (.exit code) (s.push (.exit code))
| received (out : Out) (queue : List Out)
    (hWriting : s.writing = none)
    (hQueue : s.queue = out :: queue) :
    Move s .recv { s with writing := some out, queue := queue }
| wrote (line : Bytes) (credit : Nat)
    (hWriting : s.writing = some (.line line (some credit))) :
    Move s .wrote
      { s with
        writing := none
        permits := s.permits.release credit }
| wroteFree (out : Out)
    (hWriting : s.writing = some out)
    (hFree : out.credit = 0) :
    Move s .wrote { s with writing := none }
| exits (e : Event)
    (hEvent : e = .recv ∨ e = .writeFailed) :
    Move s e { s with exited := true }
| passes (d : Nat) :
    Move s (.tick d) { s with now := s.now + d }
| watch (e : Event) (watcher : Watcher) (es : List Entry)
    (hWatch : Watch s e watcher es) :
    Move s e { s with watcher := watcher, log := s.log ++ es }

namespace Output

variable {s t : Output} {e : Event}

/- The pump's steps are among these. -/
theorem move_of_pumpNext
    (hNext : s.pumpNext = some t) :
    Move s .pump t := by
  unfold pumpNext at hNext
  cases hPump : s.pump <;>
    simp only [hPump, Option.some.injEq, reduceCtorEq] at hNext
  case trying c =>
    cases hFree : s.permits.tryAcquire c with
    | some permits =>
        rw [hFree] at hNext
        cases hNext
        exact .acquired c permits hPump hFree
    | none =>
        rw [hFree] at hNext
        cases hNext
        exact .turn _ _ (.full c hPump hFree)
  case starting c =>
    subst hNext
    exact .began c hPump
  case announcing c =>
    subst hNext
    exact .announced c hPump
  case requesting c =>
    rcases Option.map_eq_some_iff.mp hNext with
      ⟨permits, hQueued, hEq⟩
    subst hEq
    exact .requested c permits hPump hQueued
  case parked c =>
    rcases Option.map_eq_some_iff.mp hNext with
      ⟨⟨n, permits⟩, hTaken, hEq⟩
    subst hEq
    exact .resumed c n permits hPump hTaken
  case taking credit =>
    split at hNext <;> cases hNext
    · exact .taken _ credit hPump ‹_›
    · exact .dropped credit hPump ‹_›
  case «show» line credit =>
    subst hNext
    exact .turn _ _ (.shown line credit hPump)
  case send line credit =>
    subst hNext
    exact .sent line credit hPump
  case notify =>
    subst hNext
    exact .turn _ _ (.notified hPump)
  case ended =>
    subst hNext
    exact .turn _ _ (.ended hPump)

/- An abort gives back what the pump waited for. -/
theorem move_of_abort
    (hNext : s.abort = some t) :
    Move s .abort t := by
  unfold abort at hNext
  cases hPump : s.pump <;>
    simp only [hPump, Option.some.injEq, reduceCtorEq] at hNext
  all_goals subst hNext
  case reading => exact .turn _ _ (.aborted hPump)
  case requesting c => exact .withdrawn c hPump
  case parked c => exact .cancelled c hPump
  case done => exact .turn _ _ (.returned hPump)

/- The writer's steps are among them. -/
theorem move_of_writerNext
    (hNext : s.writerNext e = some t) :
    Move s e t := by
  cases e <;> simp only [writerNext, reduceCtorEq] at hNext
  case recv =>
    split at hNext
    · rename_i hWriting hQueue
      cases hNext
      exact .received _ _ hWriting hQueue
    · cases hNext
      exact .exits _ (Or.inl rfl)
    · cases hNext
  case wrote =>
    split at hNext
    · rename_i hWriting
      cases hNext
      exact .wrote _ _ hWriting
    · rename_i out hFree hWriting
      cases hNext
      refine .wroteFree out hWriting ?_
      cases out with
      | exit code => rfl
      | line line credit =>
          cases credit with
          | none => rfl
          | some credit => exact absurd rfl (hFree _ _)
    · cases hNext
  case writeFailed =>
    cases hNext
    exact .exits _ (Or.inr rfl)

/- The watcher goes on, and nothing is recorded. -/
theorem move_of_watch
    {watcher : Watcher}
    (hWatch : Watch s e watcher []) :
    Move s e { s with watcher := watcher } := by
  have hMove := Move.watch e watcher [] hWatch
  rw [List.append_nil] at hMove
  exact hMove

/- The watcher's steps are among them. -/
theorem move_of_watcherNext
    (hNext : s.watcherNext = some t) :
    Move s .look t := by
  unfold watcherNext at hNext
  split at hNext
  · rename_i notified hWatcher
    split at hNext
    · rename_i hSince
      cases hNext
      exact move_of_watch (.free notified hWatcher hSince)
    · rename_i since hSince
      cases hNext
      exact move_of_watch (.parked notified since hWatcher hSince)
  · rename_i hWatcher
    cases hNext
    exact move_of_watch (.woken hWatcher)
  · rename_i park hWatcher
    split at hNext
    · cases hNext
    · rename_i since hSince
      split at hNext
      · rename_i hGrace
        split at hNext
        · rename_i hPark
          cases hNext
          subst hPark
          exact .watch _ _ _
            (.stalled since hWatcher hSince hGrace)
        · rename_i hPark
          cases hNext
          exact move_of_watch
            (.changed park since hWatcher hSince hGrace hPark)
      · cases hNext
  · cases hNext

/- Every step is one of the moves. -/
theorem move_of_next
    (hNext : s.next e = some t) :
    Move s e t := by
  unfold next at hNext
  split at hNext
  · cases hNext
  · split at hNext
    case h_1 line =>
      split at hNext
      · split at hNext
        · cases hNext
          exact .read line ‹_› ‹_›
        · cases hNext
      · cases hNext
    case h_2 =>
      split at hNext <;> cases hNext
      exact .turn _ _ (.cut ‹_›)
    case h_3 => exact move_of_pumpNext hNext
    case h_4 inFlight =>
      split at hNext <;> cases hNext
      cases inFlight with
      | true => exact .turn _ _ (.inFlight ‹_›)
      | false => exact .turn _ _ (.answered ‹_›)
    case h_5 => exact move_of_abort hNext
    case h_6 =>
      split at hNext <;> cases hNext
      · exact .lost _ ‹_› ‹_›
      · exact .turn _ _ (.emptyHanded ‹_› ‹_›)
    case h_7 =>
      split at hNext <;> cases hNext
      exact .turn _ _ (.connected ‹_›)
    case h_8 line =>
      cases hNext
      exact .queued line
    case h_9 code =>
      cases hNext
      exact .exiting code
    case h_10 d =>
      cases hNext
      exact .passes d
    case h_11 =>
      split at hNext <;> cases hNext
      exact move_of_watch (.called ‹_›)
    case h_12 => exact move_of_watcherNext hNext
    case h_13 =>
      cases hNext
      exact move_of_watch .dropped
    case h_14 => exact move_of_writerNext hNext

end Output

/- What the moves preserve holds in every reachable state. -/
theorem invariant_of_reachable
    {I : Output → Prop} {s : Output}
    (hStart : I .start)
    (hMove : ∀ s e t, I s → Move s e t → I t)
    (hReach : machine.Reachable s) :
    I s := by
  rcases hReach with ⟨s₀, es, hInitial, hRun⟩
  apply hRun.invariant
  · intro s e t hI hStep
    exact hMove s e t hI (Output.move_of_next hStep)
  · have hInitial : s₀ = .start := hInitial
    rw [hInitial]
    exact hStart

------------------------------------------------------------
-- A Pump That Is Parked
------------------------------------------------------------

namespace Output

variable {s : Output}

/- A line can be read when the pump is reading. -/
theorem next_read
    {line : Bytes}
    (hRunning : s.exited = false)
    (hPump : s.pump = .reading)
    (hLine : line.getLast? = some newline) :
    s.next (.read line) =
      some
        { s with
          held := some line
          pump := .trying (cost line) } := by
  unfold next
  rw [hRunning, if_neg (by decide)]
  dsimp only
  rw [hPump]
  exact if_pos hLine

/- A line that takes the whole budget. -/
def longLine : Bytes :=
  List.replicate stdoutBudget 0 ++ [newline]

/- A line longer than the budget costs the whole budget. -/
theorem cost_longLine : cost longLine = stdoutBudget := by
  rw [cost_eq, longLine, List.length_append,
    List.length_replicate]
  exact Nat.min_eq_right (Nat.le_add_right _ _)

/- The long line is queued, and the pump is parked behind it. -/
def parkedBehind : Output :=
  { start with
    permits := ⟨0, some ⟨1, 0, by decide⟩, fun _ _ _ => rfl⟩
    held := some [newline]
    park := ⟨1, some 0⟩
    pump := .parked 1
    queue := [.line longLine (some stdoutBudget)]
    log := [.begun 1 0] }

/- The state of the example is reached. -/
theorem reachable_parkedBehind :
    machine.Reachable parkedBehind := by
  have hLast : longLine.getLast? = some newline := by
    rw [longLine, List.getLast?_append]
    rfl
  have hRead :
      (start.pumping .reading).next (.read longLine) =
        some
          { start with
            held := some longLine
            pump := .trying (cost longLine) } :=
    next_read rfl rfl hLast
  rw [cost_longLine] at hRead
  have hConnect :
      machine.step start .connect (start.pumping .reading) :=
    rfl
  have hTaken :
      machine.step
        { start with
          held := some longLine
          pump := .trying stdoutBudget }
        .pump
        { start with
          permits := .new 0
          held := some longLine
          pump := .taking stdoutBudget } :=
    rfl
  have hQueued :
      machine.Run
        { start with
          permits := .new 0
          held := some longLine
          pump := .taking stdoutBudget }
        [.pump, .pump, .pump, .checked true, .read [newline]]
        { start with
          permits := .new 0
          held := some [newline]
          queue := [.line longLine (some stdoutBudget)]
          pump := .trying 1 } :=
    Machine.Run.of_foldlM rfl
  have hParked :
      machine.Run
        { start with
          permits := .new 0
          held := some [newline]
          queue := [.line longLine (some stdoutBudget)]
          pump := .trying 1 }
        [.pump, .pump, .pump, .pump] parkedBehind :=
    Machine.Run.of_foldlM rfl
  exact ⟨start, _, rfl,
    .cons hConnect (.cons hRead (.cons hTaken
      (hQueued.append hParked)))⟩

end Output

end Budget

end Proxy

end Ferrex
