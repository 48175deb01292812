import Mathlib.Data.List.Nodup
import Ferrex.Daemon.Idle
import Ferrex.Lib.Transition

/-
  The serve loop of a daemon with the tasks of its
  connections: accepts, hellos, session ends, the triggers of
  a shutdown, and the drain of the backlog that an idle exit
  makes before it goes ahead.

  Main declarations:
    * `Link`, `Loop`, `Serve`
    * `Event`, `Serve.next`, `machine`
    * `Move`, `Serve.next_eq_some`
    * `Placed`, `Placed.next`
-/

------------------------------------------------------------
-- State
------------------------------------------------------------

namespace Ferrex

namespace Daemon

inductive Trigger where
| idle
| signal
| initFailedGrace
deriving DecidableEq

inductive InitState where
| pending
| ready
| failed
deriving DecidableEq

/-
  What has become of a connection: it is in the backlog, was
  drained from it, waits for or has got the answer to its
  hello, runs a session, has ended, or was closed by the
  daemon, by an exit or because it could not be adopted.
-/
inductive Link where
| queued
| drained
| hello
| greeted
| active
| ended
| closed (exit : Option Trigger)
deriving DecidableEq

namespace Link

/- A connection whose task is still in its hello phase. -/
def inHello : Link → Bool
| .hello => true
| .greeted => true
| _ => false

def isActive (l : Link) : Bool :=
  decide (l = .active)

/- An accepted connection that has not ended. -/
def live (l : Link) : Bool :=
  l.inHello || l.isActive

end Link

/-
  Where the loop is: before the update of its timer, in its
  select, in a shutdown that has been triggered, or past the
  point of no return.
-/
inductive Loop where
| top
| select
| locking (trigger : Trigger)
| draining (trigger : Trigger) (drained : List Nat)
| applying (drained : List Nat)
| adopting (drained : List Nat)
| committed (trigger : Trigger) (lock : Bool)
| closing (trigger : Trigger)
| stopped (trigger : Trigger)
deriving DecidableEq

namespace Loop

/- The connections taken from the backlog in a shutdown. -/
def drained : Loop → List Nat
| .draining _ drained => drained
| .applying drained => drained
| .adopting drained => drained
| _ => []

/- The listener is dropped at the end. -/
def listening : Loop → Bool
| .closing _ => false
| .stopped _ => false
| _ => true

/- The trigger of an exit that goes ahead. -/
def exit : Loop → Option Trigger
| .committed trigger _ => some trigger
| .closing trigger => some trigger
| .stopped trigger => some trigger
| _ => none

end Loop

/-
  The daemon with every connection there ever was.  The
  backlog holds the ones that wait for an accept, `queue` the
  events that the loop has not received yet.
-/
structure Serve where
  timer : IdleTimer
  init : InitState
  clock : Nat
  links : List Link
  backlog : List Nat
  queue : List ConnEvent
  loop : Loop
deriving DecidableEq

------------------------------------------------------------
-- Steps
------------------------------------------------------------

inductive Event where
| tick (d : Nat)
| connect
| update
| accept
| acceptFailed
| initDone (ok : Bool)
| trigger (trigger : Trigger)
| receive
| joined
| lock (free : Bool)
| drain
| decide
| adopt (ok : Bool)
| greet (n : Nat)
| activate (n : Nat)
| finish (n : Nat)
| dropListener
| abortAll
deriving DecidableEq

namespace Serve

/- The timer counts the connection and its task begins. -/
def spawnSession (s : Serve) (n : Nat) : Serve :=
  { s with
    timer := s.timer.accepted
    links := s.links.set n .hello }

/- The branches of the select that lead to a shutdown. -/
def fires (s : Serve) : Trigger → Bool
| .idle => s.timer.deadline.any (fun d => d ≤ s.clock)
| .signal => true
| .initFailedGrace => decide (s.init = .failed)

/- The connections of a kind are closed by an exit. -/
def closeAll
    (s : Serve)
    (p : Link → Bool)
    (trigger : Trigger) : Serve :=
  { s with
    links := s.links.map
      (fun l => if p l then .closed (some trigger) else l) }

/- One pass of the select, from its top to its branch. -/
def loopNext (s : Serve) : Event → Option Serve
| .update =>
    match s.loop with
    | .top =>
        some { s with
          timer := s.timer.update s.clock
          loop := .select }
    | _ => none
| .accept =>
    match s.loop, s.backlog with
    | .select, n :: rest =>
        some { s.spawnSession n with
          backlog := rest
          loop := .top }
    | _, _ => none
| .acceptFailed =>
    match s.loop with
    | .select => some { s with loop := .top }
    | _ => none
| .initDone ok =>
    match s.loop, s.init with
    | .select, .pending =>
        if ok then
          some { s with
            timer := s.timer.initSucceeded
            init := .ready
            loop := .top }
        else
          some { s with
            init := .failed
            loop := .top }
    | _, _ => none
| .trigger trigger =>
    match s.loop with
    | .select =>
        if s.fires trigger then
          some { s with loop := .locking trigger }
        else
          none
    | _ => none
| .receive =>
    match s.loop, s.queue with
    | .select, e :: rest =>
        some { s with
          timer := s.timer.apply e
          queue := rest
          loop := .top }
    | _, _ => none
| .joined =>
    match s.loop with
    | .select => some { s with loop := .top }
    | _ => none
| _ => none

/- A step of `begin_shutdown` and of `finish`. -/
def shutdownNext (s : Serve) : Event → Option Serve
| .lock free =>
    match s.loop, free with
    | .locking trigger, true =>
        some { s with loop := .draining trigger [] }
    | .locking .idle, false =>
        some { s with
          timer := s.timer.postpone s.clock
          loop := .top }
    | .locking trigger, false =>
        some { s with loop := .committed trigger false }
    | _, _ => none
| .drain =>
    match s.loop, s.backlog with
    | .draining trigger drained, n :: rest =>
        some { s with
          links := s.links.set n .drained
          backlog := rest
          loop := .draining trigger (drained ++ [n]) }
    | .draining .idle drained, [] =>
        some { s with loop := .applying drained }
    | .draining trigger _, [] =>
        some { s.closeAll (fun l => decide (l = .drained))
            trigger with
          loop := .committed trigger true }
    | _, _ => none
| .decide =>
    match s.loop, s.queue with
    | .applying _, e :: rest =>
        some { s with
          timer := s.timer.apply e
          queue := rest }
    | .applying drained, [] =>
        if drained.isEmpty && s.timer.shouldArm then
          some { s with loop := .committed .idle true }
        else
          some { s with loop := .adopting drained }
    | _, _ => none
| .adopt ok =>
    match s.loop with
    | .adopting (n :: rest) =>
        if ok then
          some { s.spawnSession n with loop := .adopting rest }
        else
          some { s with
            links := s.links.set n (.closed none)
            loop := .adopting rest }
    | .adopting [] => some { s with loop := .top }
    | _ => none
| .dropListener =>
    match s.loop with
    | .committed trigger _ =>
        some { s.closeAll (fun l => decide (l = .queued))
            trigger with
          backlog := []
          loop := .closing trigger }
    | _ => none
| .abortAll =>
    match s.loop with
    | .closing trigger =>
        some { s.closeAll Link.live trigger with
          loop := .stopped trigger }
    | _ => none
| _ => none

/-
  A step of a client or of a connection's task.  The guard of
  a task reports one event at each change of phase: a task
  that returns or panics in its hello has failed it.
-/
def taskNext (s : Serve) : Event → Option Serve
| .tick d => some { s with clock := s.clock + d }
| .connect =>
    if s.loop.listening then
      some { s with
        links := s.links ++ [.queued]
        backlog := s.backlog ++ [s.links.length] }
    else
      none
| .greet n =>
    if s.links[n]? = some .hello ∧ s.init = .ready then
      some { s with links := s.links.set n .greeted }
    else
      none
| .activate n =>
    if s.links[n]? = some .greeted then
      some { s with
        links := s.links.set n .active
        queue := s.queue ++ [.helloPassed] }
    else
      none
| .finish n =>
    match s.links[n]? with
    | some .active =>
        some { s with
          links := s.links.set n .ended
          queue := s.queue ++ [.ended] }
    | some l =>
        if l.inHello then
          some { s with
            links := s.links.set n .ended
            queue := s.queue ++ [.helloFailed] }
        else
          none
    | none => none
| _ => none

def next (s : Serve) (e : Event) : Option Serve :=
  match e with
  | .tick _ | .connect | .greet _ | .activate _
  | .finish _ => s.taskNext e
  | .lock _ | .drain | .decide | .adopt _ | .dropListener
  | .abortAll => s.shutdownNext e
  | _ => s.loopNext e

/- A daemon that has bound its socket and counts nothing. -/
def start (timeout clock : Nat) : Serve where
  timer := .new timeout
  init := .pending
  clock := clock
  links := []
  backlog := []
  queue := []
  loop := .top

end Serve

def machine : Machine Serve Event :=
  .ofNext (fun s => ∃ timeout clock, s = .start timeout clock)
    Serve.next

/- A computed run to a state that passes a test. -/
theorem Serve.run_of_any
    (s : Serve)
    (es : List Event)
    (test : Serve → Bool)
    (h : (es.foldlM Serve.next s).any test = true) :
    ∃ t, machine.Run s es t ∧ test t = true :=
  Machine.Run.of_any machine.initial s es test h

------------------------------------------------------------
-- Moves
------------------------------------------------------------

/- The ways in which the daemon goes from state to state. -/
inductive Move (s : Serve) : Event → Serve → Prop
| update
    (hLoop : s.loop = .top) :
    Move s .update { s with
      timer := s.timer.update s.clock
      loop := .select }
| accept (n : Nat) (rest : List Nat)
    (hLoop : s.loop = .select)
    (hBacklog : s.backlog = n :: rest) :
    Move s .accept { s.spawnSession n with
      backlog := rest
      loop := .top }
| turn (e : Event)
    (hLoop : s.loop = .select)
    (hEvent : e = .acceptFailed ∨ e = .joined) :
    Move s e { s with loop := .top }
| initReady
    (hLoop : s.loop = .select)
    (hInit : s.init = .pending) :
    Move s (.initDone true) { s with
      timer := s.timer.initSucceeded
      init := .ready
      loop := .top }
| initFailed
    (hLoop : s.loop = .select)
    (hInit : s.init = .pending) :
    Move s (.initDone false) { s with
      init := .failed
      loop := .top }
| trigger (trigger : Trigger)
    (hLoop : s.loop = .select)
    (hFires : s.fires trigger = true) :
    Move s (.trigger trigger)
      { s with loop := .locking trigger }
| receive (e : ConnEvent) (rest : List ConnEvent)
    (hLoop : s.loop = .select)
    (hQueue : s.queue = e :: rest) :
    Move s .receive { s with
      timer := s.timer.apply e
      queue := rest
      loop := .top }
| locked (trigger : Trigger)
    (hLoop : s.loop = .locking trigger) :
    Move s (.lock true)
      { s with loop := .draining trigger [] }
| postpone
    (hLoop : s.loop = .locking .idle) :
    Move s (.lock false) { s with
      timer := s.timer.postpone s.clock
      loop := .top }
| unlocked (trigger : Trigger)
    (hLoop : s.loop = .locking trigger)
    (hTrigger : trigger ≠ .idle) :
    Move s (.lock false)
      { s with loop := .committed trigger false }
| pull (trigger : Trigger) (drained : List Nat) (n : Nat)
    (rest : List Nat)
    (hLoop : s.loop = .draining trigger drained)
    (hBacklog : s.backlog = n :: rest) :
    Move s .drain { s with
      links := s.links.set n .drained
      backlog := rest
      loop := .draining trigger (drained ++ [n]) }
| dry (drained : List Nat)
    (hLoop : s.loop = .draining .idle drained)
    (hBacklog : s.backlog = []) :
    Move s .drain { s with loop := .applying drained }
| leave (trigger : Trigger) (drained : List Nat)
    (hLoop : s.loop = .draining trigger drained)
    (hTrigger : trigger ≠ .idle)
    (hBacklog : s.backlog = []) :
    Move s .drain
      { s.closeAll (fun l => decide (l = .drained))
          trigger with
        loop := .committed trigger true }
| settle (drained : List Nat) (e : ConnEvent)
    (rest : List ConnEvent)
    (hLoop : s.loop = .applying drained)
    (hQueue : s.queue = e :: rest) :
    Move s .decide { s with
      timer := s.timer.apply e
      queue := rest }
| commit
    (hLoop : s.loop = .applying [])
    (hQueue : s.queue = [])
    (hArm : s.timer.shouldArm = true) :
    Move s .decide { s with loop := .committed .idle true }
| cancel (drained : List Nat)
    (hLoop : s.loop = .applying drained)
    (hQueue : s.queue = []) :
    Move s .decide { s with loop := .adopting drained }
| adopt (n : Nat) (rest : List Nat)
    (hLoop : s.loop = .adopting (n :: rest)) :
    Move s (.adopt true)
      { s.spawnSession n with loop := .adopting rest }
| discard (n : Nat) (rest : List Nat)
    (hLoop : s.loop = .adopting (n :: rest)) :
    Move s (.adopt false) { s with
      links := s.links.set n (.closed none)
      loop := .adopting rest }
| release (ok : Bool)
    (hLoop : s.loop = .adopting []) :
    Move s (.adopt ok) { s with loop := .top }
| dropListener (trigger : Trigger) (lock : Bool)
    (hLoop : s.loop = .committed trigger lock) :
    Move s .dropListener
      { s.closeAll (fun l => decide (l = .queued))
          trigger with
        backlog := []
        loop := .closing trigger }
| abortAll (trigger : Trigger)
    (hLoop : s.loop = .closing trigger) :
    Move s .abortAll
      { s.closeAll Link.live trigger with
        loop := .stopped trigger }
| tick (d : Nat) :
    Move s (.tick d) { s with clock := s.clock + d }
| connect
    (hListening : s.loop.listening = true) :
    Move s .connect { s with
      links := s.links ++ [.queued]
      backlog := s.backlog ++ [s.links.length] }
| greet (n : Nat)
    (hLink : s.links[n]? = some .hello)
    (hInit : s.init = .ready) :
    Move s (.greet n)
      { s with links := s.links.set n .greeted }
| activate (n : Nat)
    (hLink : s.links[n]? = some .greeted) :
    Move s (.activate n) { s with
      links := s.links.set n .active
      queue := s.queue ++ [.helloPassed] }
| endSession (n : Nat)
    (hLink : s.links[n]? = some .active) :
    Move s (.finish n) { s with
      links := s.links.set n .ended
      queue := s.queue ++ [.ended] }
| failHello (n : Nat) (l : Link)
    (hLink : s.links[n]? = some l)
    (hHello : l.inHello = true) :
    Move s (.finish n) { s with
      links := s.links.set n .ended
      queue := s.queue ++ [.helloFailed] }

namespace Serve

variable {s t : Serve} {e : Event}

private theorem move_of_loopNext
    (h : s.loopNext e = some t) :
    Move s e t := by
  cases e with
  | update =>
      simp only [loopNext] at h
      split at h <;> cases h
      exact .update ‹_›
  | accept =>
      simp only [loopNext] at h
      split at h <;> cases h
      exact .accept _ _ ‹_› ‹_›
  | acceptFailed =>
      simp only [loopNext] at h
      split at h <;> cases h
      exact .turn _ ‹_› (Or.inl rfl)
  | joined =>
      simp only [loopNext] at h
      split at h <;> cases h
      exact .turn _ ‹_› (Or.inr rfl)
  | initDone ok =>
      simp only [loopNext] at h
      split at h
      · cases ok <;> cases h
        · exact .initFailed ‹_› ‹_›
        · exact .initReady ‹_› ‹_›
      · cases h
  | trigger trigger =>
      simp only [loopNext] at h
      split at h
      · split at h <;> cases h
        exact .trigger trigger ‹_› ‹_›
      · cases h
  | receive =>
      simp only [loopNext] at h
      split at h <;> cases h
      exact .receive _ _ ‹_› ‹_›
  | _ => cases h

private theorem move_of_shutdownNext
    (h : s.shutdownNext e = some t) :
    Move s e t := by
  cases e with
  | lock free =>
      simp only [shutdownNext] at h
      split at h
      · cases h
        exact .locked _ ‹_›
      · cases h
        exact .postpone ‹_›
      · rename_i trigger hTrigger hLoop
        cases h
        exact .unlocked trigger hLoop hTrigger
      · cases h
  | drain =>
      simp only [shutdownNext] at h
      split at h
      · cases h
        exact .pull _ _ _ _ ‹_› ‹_›
      · cases h
        exact .dry _ ‹_› ‹_›
      · rename_i trigger drained hTrigger hLoop hBacklog
        cases h
        exact .leave trigger drained hLoop hTrigger hBacklog
      · cases h
  | decide =>
      simp only [shutdownNext] at h
      split at h
      · cases h
        exact .settle _ _ _ ‹_› ‹_›
      · rename_i drained hLoop hQueue
        split at h
        · rename_i hIdle
          cases h
          rw [Bool.and_eq_true, List.isEmpty_iff] at hIdle
          exact .commit (hIdle.1 ▸ hLoop) hQueue hIdle.2
        · cases h
          exact .cancel drained hLoop hQueue
      · cases h
  | adopt ok =>
      simp only [shutdownNext] at h
      split at h
      · cases ok <;> cases h
        · exact .discard _ _ ‹_›
        · exact .adopt _ _ ‹_›
      · cases h
        exact .release ok ‹_›
      · cases h
  | dropListener =>
      simp only [shutdownNext] at h
      split at h <;> cases h
      exact .dropListener _ _ ‹_›
  | abortAll =>
      simp only [shutdownNext] at h
      split at h <;> cases h
      exact .abortAll _ ‹_›
  | _ => cases h

private theorem move_of_taskNext
    (h : s.taskNext e = some t) :
    Move s e t := by
  cases e with
  | tick d =>
      cases h
      exact .tick d
  | connect =>
      simp only [taskNext] at h
      split at h <;> cases h
      exact .connect ‹_›
  | greet n =>
      simp only [taskNext] at h
      split at h
      · rename_i hBoth
        cases h
        exact .greet n hBoth.1 hBoth.2
      · cases h
  | activate n =>
      simp only [taskNext] at h
      split at h <;> cases h
      exact .activate n ‹_›
  | finish n =>
      simp only [taskNext] at h
      split at h
      · cases h
        exact .endSession n ‹_›
      · split at h <;> cases h
        exact .failHello n _ ‹_› ‹_›
      · cases h
  | _ => cases h

theorem next_eq_some
    (h : s.next e = some t) :
    Move s e t := by
  unfold next at h
  split at h
  case h_12 => exact move_of_loopNext h
  all_goals
    first
    | exact move_of_taskNext h
    | exact move_of_shutdownNext h

end Serve

------------------------------------------------------------
-- Backlog and Drained Connections
------------------------------------------------------------

/-
  The backlog holds the connections that wait in it, once
  each, and a shutdown the ones it has drained.
-/
structure Placed (s : Serve) : Prop where
  backlog_iff :
    ∀ n, n ∈ s.backlog ↔ s.links[n]? = some .queued
  drained_iff :
    ∀ n, n ∈ s.loop.drained ↔ s.links[n]? = some .drained
  backlog_nodup : s.backlog.Nodup
  drained_nodup : s.loop.drained.Nodup

theorem getElem?_set_of_eq_some
    {α : Type} {l : List α} {n : Nat} {a : α}
    (b : α)
    (h : l[n]? = some a)
    (m : Nat) :
    (l.set n b)[m]? = if m = n then some b else l[m]? := by
  have hLt : n < l.length :=
    (List.getElem?_eq_some_iff.mp h).1
  rw [List.getElem?_set]
  by_cases hEq : m = n
  · subst hEq
    simp [hLt]
  · simp [hEq, Ne.symm hEq]

namespace Serve

variable {s : Serve} {p : Link → Bool} {trigger : Trigger}
variable {n : Nat} {l : Link}

@[simp]
theorem closeAll_backlog :
    (s.closeAll p trigger).backlog = s.backlog :=
  rfl

/- What is closed is closed, and the rest stays. -/
theorem closeAll_getElem?_iff
    (hOpen : ∀ exit, l ≠ .closed exit) :
    (s.closeAll p trigger).links[n]? = some l ↔
      s.links[n]? = some l ∧ p l = false := by
  simp only [closeAll, List.getElem?_map,
    Option.map_eq_some_iff]
  constructor
  · rintro ⟨l', hLink, hEq⟩
    split at hEq
    · exact absurd hEq.symm (hOpen _)
    · rename_i hNot
      subst hEq
      exact ⟨hLink, by simpa using hNot⟩
  · rintro ⟨hLink, hNot⟩
    exact ⟨l, hLink, by simp [hNot]⟩

end Serve

namespace Placed

variable {s t : Serve} {e : Event}

theorem start
    (timeout clock : Nat) :
    Placed (.start timeout clock) where
  backlog_iff := by simp [Serve.start]
  drained_iff := by simp [Serve.start, Loop.drained]
  backlog_nodup := List.nodup_nil
  drained_nodup := List.nodup_nil

private theorem keep
    (hPlaced : Placed s)
    (hLinks : t.links = s.links)
    (hBacklog : t.backlog = s.backlog)
    (hDrained : t.loop.drained = s.loop.drained) :
    Placed t := by
  constructor
  case backlog_iff =>
    rw [hLinks, hBacklog]
    exact hPlaced.backlog_iff
  case drained_iff =>
    rw [hLinks, hDrained]
    exact hPlaced.drained_iff
  case backlog_nodup =>
    rw [hBacklog]
    exact hPlaced.backlog_nodup
  case drained_nodup =>
    rw [hDrained]
    exact hPlaced.drained_nodup

/- A connection that stays outside of both lists. -/
private theorem task
    {n : Nat} {l l' : Link} {queue : List ConnEvent}
    (hPlaced : Placed s)
    (hLink : s.links[n]? = some l)
    (hOld : l ≠ .queued ∧ l ≠ .drained)
    (hNew : l' ≠ .queued ∧ l' ≠ .drained) :
    Placed { s with
      links := s.links.set n l'
      queue := queue } := by
  have hSame :
      ∀ (m : Nat) (l₀ : Link), l₀ = .queued ∨ l₀ = .drained →
        ((s.links.set n l')[m]? = some l₀ ↔
          s.links[m]? = some l₀) := by
    intro m l₀ hKind
    rw [getElem?_set_of_eq_some l' hLink]
    by_cases hEq : m = n
    · subst hEq
      rcases hKind with rfl | rfl
      · simp [hLink, hOld.1, hNew.1]
      · simp [hLink, hOld.2, hNew.2]
    · simp [hEq]
  exact ⟨fun m => (hPlaced.backlog_iff m).trans
      (hSame m _ (Or.inl rfl)).symm,
    fun m => (hPlaced.drained_iff m).trans
      (hSame m _ (Or.inr rfl)).symm,
    hPlaced.backlog_nodup, hPlaced.drained_nodup⟩

/- The head of a list without repetition leaves it. -/
private theorem mem_tail_iff
    {n m : Nat} {ns rest : List Nat} {l l' l₀ : Link}
    {links : List Link}
    (hNodup : ns.Nodup)
    (hCons : ns = n :: rest)
    (hIff : m ∈ ns ↔ links[m]? = some l₀)
    (hLink : links[n]? = some l)
    (hNew : l' ≠ l₀) :
    m ∈ rest ↔ (links.set n l')[m]? = some l₀ := by
  subst hCons
  rw [getElem?_set_of_eq_some l' hLink]
  by_cases hEq : m = n
  · subst hEq
    simp [(List.nodup_cons.mp hNodup).1, hNew]
  · rw [List.mem_cons] at hIff
    simpa [hEq] using hIff

/- What is not about the list is as before. -/
private theorem iff_set
    {n m : Nat} {l l' l₀ : Link} {links : List Link}
    {P : Prop}
    (hIff : P ↔ links[m]? = some l₀)
    (hLink : links[n]? = some l)
    (hOld : l ≠ l₀)
    (hNew : l' ≠ l₀) :
    P ↔ (links.set n l')[m]? = some l₀ := by
  rw [getElem?_set_of_eq_some l' hLink]
  by_cases hEq : m = n
  · subst hEq
    rw [hLink] at hIff
    simpa [hNew, hOld] using hIff
  · simpa [hEq] using hIff

theorem next
    (hPlaced : Placed s)
    (hNext : s.next e = some t) :
    Placed t := by
  have hHead :
      ∀ {n rest}, s.backlog = n :: rest →
        s.links[n]? = some .queued :=
    fun h => (hPlaced.backlog_iff _).mp (by simp [h])
  have hFirst :
      ∀ {n rest}, s.loop.drained = n :: rest →
        s.links[n]? = some .drained :=
    fun h => (hPlaced.drained_iff _).mp (by simp [h])
  cases Serve.next_eq_some hNext with
  | accept n rest hLoop hBacklog =>
      have hLink := hHead hBacklog
      have hNodup := hPlaced.backlog_nodup
      have hNone :
          ∀ m, m ∈ Loop.top.drained ↔
            s.links[m]? = some .drained := by
        intro m
        have hIff := hPlaced.drained_iff m
        rw [hLoop] at hIff
        exact hIff
      exact ⟨fun m => mem_tail_iff hNodup hBacklog
          (hPlaced.backlog_iff m) hLink (by simp),
        fun m => iff_set (hNone m) hLink (by simp) (by simp),
        (List.nodup_cons.mp (hBacklog ▸ hNodup)).2,
        List.nodup_nil⟩
  | pull trigger drained n rest hLoop hBacklog =>
      have hLink := hHead hBacklog
      have hNodup := hPlaced.backlog_nodup
      have hDrained : s.loop.drained = drained := by
        rw [hLoop]
        rfl
      have hOut : n ∉ drained := by
        rw [← hDrained, hPlaced.drained_iff, hLink]
        simp
      refine ⟨fun m => mem_tail_iff hNodup hBacklog
          (hPlaced.backlog_iff m) hLink (by simp),
        fun m => ?_,
        (List.nodup_cons.mp (hBacklog ▸ hNodup)).2, ?_⟩
      · have hIff := hPlaced.drained_iff m
        rw [hDrained] at hIff
        change m ∈ drained ++ [n] ↔
          (s.links.set n .drained)[m]? = _
        rw [getElem?_set_of_eq_some _ hLink]
        by_cases hEq : m = n
        · simp [hEq]
        · simpa [hEq] using hIff
      · have hOld := hDrained ▸ hPlaced.drained_nodup
        exact List.Nodup.append hOld (List.nodup_singleton n)
          (by simpa using hOut)
  | leave trigger drained hLoop _ hBacklog =>
      refine ⟨fun m => ?_, fun m => ?_,
        hPlaced.backlog_nodup, List.nodup_nil⟩
      · rw [Serve.closeAll_getElem?_iff (by simp)]
        simpa using hPlaced.backlog_iff m
      · rw [Serve.closeAll_getElem?_iff (by simp)]
        simp [Loop.drained]
  | adopt n rest hLoop | discard n rest hLoop =>
      have hDrained : s.loop.drained = n :: rest := by
        rw [hLoop]
        rfl
      have hLink := hFirst hDrained
      have hNodup := hPlaced.drained_nodup
      exact ⟨fun m => iff_set (hPlaced.backlog_iff m) hLink
          (by simp) (by simp),
        fun m => mem_tail_iff hNodup hDrained
          (hPlaced.drained_iff m) hLink (by simp),
        hPlaced.backlog_nodup,
        (List.nodup_cons.mp (hDrained ▸ hNodup)).2⟩
  | dropListener trigger lock hLoop =>
      have hNone : s.loop.drained = [] := by
        rw [hLoop]
        rfl
      refine ⟨fun m => ?_, fun m => ?_, List.nodup_nil,
        List.nodup_nil⟩
      · rw [Serve.closeAll_getElem?_iff (by simp)]
        simp
      · rw [Serve.closeAll_getElem?_iff (by simp)]
        have hIff := hNone ▸ hPlaced.drained_iff m
        simpa [Loop.drained] using hIff
  | abortAll trigger hLoop =>
      have hNone : s.loop.drained = [] := by
        rw [hLoop]
        rfl
      refine ⟨fun m => ?_, fun m => ?_,
        hPlaced.backlog_nodup, List.nodup_nil⟩
      · rw [Serve.closeAll_getElem?_iff (by simp)]
        simpa [Link.live, Link.inHello, Link.isActive]
          using hPlaced.backlog_iff m
      · rw [Serve.closeAll_getElem?_iff (by simp)]
        have hIff := hNone ▸ hPlaced.drained_iff m
        simpa [Loop.drained, Link.live, Link.inHello,
          Link.isActive] using hIff
  | connect hListening =>
      have hFresh : s.links[s.links.length]? = none :=
        List.getElem?_eq_none (Nat.le_refl _)
      have hOut : s.links.length ∉ s.backlog := by
        rw [hPlaced.backlog_iff, hFresh]
        simp
      have hAppend :
          ∀ m, (s.links ++ [Link.queued])[m]? =
            if m = s.links.length then some .queued
            else s.links[m]? := by
        intro m
        rw [List.getElem?_append]
        by_cases hEq : m = s.links.length
        · simp [hEq]
        · by_cases hLt : m < s.links.length
          · simp [hLt, hEq]
          · have hGe : s.links.length ≤ m := Nat.le_of_not_lt hLt
            rw [if_neg hLt, if_neg hEq,
              List.getElem?_eq_none hGe,
              List.getElem?_eq_none]
            simp
            omega
      refine ⟨fun m => ?_, fun m => ?_, ?_,
        hPlaced.drained_nodup⟩
      · change m ∈ s.backlog ++ [s.links.length] ↔
          (s.links ++ [Link.queued])[m]? = _
        rw [hAppend]
        by_cases hEq : m = s.links.length
        · simp [hEq]
        · simpa [hEq] using hPlaced.backlog_iff m
      · change m ∈ s.loop.drained ↔
          (s.links ++ [Link.queued])[m]? = _
        rw [hAppend]
        by_cases hEq : m = s.links.length
        · have hIff := hPlaced.drained_iff m
          rw [hEq, hFresh] at hIff
          rw [hEq]
          simpa using hIff
        · simpa [hEq] using hPlaced.drained_iff m
      · exact List.Nodup.append hPlaced.backlog_nodup
          (List.nodup_singleton _) (by simpa using hOut)
  | greet n hLink _ =>
      exact hPlaced.task hLink (by simp) (by simp)
  | activate n hLink =>
      exact hPlaced.task hLink (by simp) (by simp)
  | endSession n hLink =>
      exact hPlaced.task hLink (by simp) (by simp)
  | failHello n l hLink hHello =>
      refine hPlaced.task hLink ⟨?_, ?_⟩ (by simp)
      · rintro rfl
        cases hHello
      · rintro rfl
        cases hHello
  | unlocked _ hLoop _ =>
      exact hPlaced.keep rfl rfl (by rw [hLoop]; rfl)
  | update hLoop =>
      exact hPlaced.keep rfl rfl (by rw [hLoop]; rfl)
  | turn _ hLoop _ =>
      exact hPlaced.keep rfl rfl (by rw [hLoop]; rfl)
  | initReady hLoop _ =>
      exact hPlaced.keep rfl rfl (by rw [hLoop]; rfl)
  | initFailed hLoop _ =>
      exact hPlaced.keep rfl rfl (by rw [hLoop]; rfl)
  | trigger _ hLoop _ =>
      exact hPlaced.keep rfl rfl (by rw [hLoop]; rfl)
  | receive _ _ hLoop _ =>
      exact hPlaced.keep rfl rfl (by rw [hLoop]; rfl)
  | locked _ hLoop =>
      exact hPlaced.keep rfl rfl (by rw [hLoop]; rfl)
  | postpone hLoop =>
      exact hPlaced.keep rfl rfl (by rw [hLoop]; rfl)
  | dry _ hLoop _ =>
      exact hPlaced.keep rfl rfl (by rw [hLoop]; rfl)
  | settle _ _ _ hLoop _ => exact hPlaced.keep rfl rfl rfl
  | commit hLoop _ _ =>
      exact hPlaced.keep rfl rfl (by rw [hLoop]; rfl)
  | cancel _ hLoop _ =>
      exact hPlaced.keep rfl rfl (by rw [hLoop]; rfl)
  | release _ hLoop =>
      exact hPlaced.keep rfl rfl (by rw [hLoop]; rfl)
  | tick d => exact hPlaced.keep rfl rfl rfl

end Placed

end Daemon

end Ferrex
