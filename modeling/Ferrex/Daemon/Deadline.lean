import Mathlib.Algebra.Group.Nat.Defs
import Ferrex.Daemon.Env
import Ferrex.Daemon.Serve

/-
  The deadlines that the daemon computes: an instant and a
  duration have a sum only up to the last instant.

  Main declarations:
    * `Instant.checkedAdd`
    * `Serve.computes`
    * `Serve.idleTimeout`, `Serve.initTimeout`
    * `deadlines_representable_iff`
-/

------------------------------------------------------------
-- Instants
------------------------------------------------------------

namespace Ferrex

namespace Daemon

/- Signed seconds of 64 bits, and the rest of a second. -/
def Instant.max : Nat := 2 ^ 63 * nanosPerSec - 1

/- The sum, where adding does not panic. -/
def Instant.checkedAdd
    (now duration : Nat) : Option Nat :=
  if now + duration ≤ Instant.max then
    some (now + duration)
  else
    none

/- The sum exists when the clock can represent it. -/
theorem Instant.checkedAdd_isSome_iff
    {now duration : Nat} :
    (Instant.checkedAdd now duration).isSome = true ↔
      now + duration ≤ Instant.max := by
  unfold Instant.checkedAdd
  split
  · simp_all
  · simp_all

------------------------------------------------------------
-- Deadlines
------------------------------------------------------------

namespace Serve

/- Ten minutes without a connection. -/
def idleTimeoutDefaultSecs : Nat := 600

/- Half an hour for the initialization. -/
def initTimeoutDefaultSecs : Nat := 1800

/- No more than fifty minutes, whatever is asked for. -/
def initTimeoutCapSecs : Nat := 3000

/- `FERREX_IDLE_TIMEOUT` has no cap. -/
def idleTimeout
    (quoted : String → String)
    (raw : Option String) : Nat :=
  envDuration quoted raw idleTimeoutDefaultSecs none

/-
  The timeout that the environment asks for, within its
  bounds.
-/
def initTimeout
    (quoted : String → String)
    (raw : Option String) : Nat :=
  envDuration quoted raw initTimeoutDefaultSecs
    (some initTimeoutCapSecs)

/-
  The instant to which a step adds the timeout: an update that
  arms the timer does so even where a suspended deadline comes
  back, and a busy spawn lock postpones the exit.
-/
def computes (s : Serve) : Event → Option Nat
| .update =>
    if s.loop = .top ∧ s.timer.shouldArm = true ∧
        s.timer.deadline = none then
      some s.clock
    else
      none
| .lock free =>
    if s.loop = .locking .idle ∧ free = false then
      some s.clock
    else
      none
| _ => none

/- A deadline is computed from the clock of the moment. -/
theorem clock_of_computes
    {s : Serve} {e : Event} {now : Nat}
    (hComputes : s.computes e = some now) :
    now = s.clock := by
  unfold computes at hComputes
  split at hComputes
  · split at hComputes
    · exact (Option.some.inj hComputes).symm
    · cases hComputes
  · split at hComputes
    · exact (Option.some.inj hComputes).symm
    · cases hComputes
  · cases hComputes

------------------------------------------------------------
-- Deadlines in a Run
------------------------------------------------------------

/- The timer of a step that is not a computed deadline. -/
structure Inherits (s t : Serve) : Prop where
  clock : s.clock ≤ t.clock
  timeout : t.timer.timeout = s.timer.timeout
  deadline : ∀ d,
    t.timer.deadline = some d ∨ t.timer.suspended = some d →
      s.timer.deadline = some d ∨ s.timer.suspended = some d

variable {s t : Serve} {e : Event}

/-
  A step that leaves the timer alone inherits its deadlines.
-/
theorem Inherits.of_timer
    (hClock : s.clock ≤ t.clock)
    (hTimer : t.timer = s.timer) :
    Inherits s t where
  clock := hClock
  timeout := by rw [hTimer]
  deadline d hd := by rwa [hTimer] at hd

/- An accepted connection takes the deadline away. -/
theorem Inherits.accepted
    (hClock : s.clock ≤ t.clock)
    (hTimer : t.timer = s.timer.accepted) :
    Inherits s t where
  clock := hClock
  timeout := by
    rw [hTimer]
    rfl
  deadline d hd := by
    rw [hTimer] at hd
    rcases hd with hNone | hSuspended
    · cases hNone
    · unfold IdleTimer.accepted at hSuspended
      dsimp only at hSuspended
      split at hSuspended
      · rename_i hSet
        rw [hSet]
        exact Or.inl hSuspended
      · exact Or.inr hSuspended

/-
  So do the other events of a connection, which only count.
-/
theorem Inherits.apply
    {event : ConnEvent}
    (hClock : s.clock ≤ t.clock)
    (hTimer : t.timer = s.timer.apply event) :
    Inherits s t where
  clock := hClock
  timeout := by
    rw [hTimer]
    rfl
  deadline d hd := by
    rw [hTimer] at hd
    rcases hd with hSet | hSuspended
    · exact Or.inl hSet
    · unfold IdleTimer.apply at hSuspended
      dsimp only at hSuspended
      split at hSuspended
      · cases hSuspended
      · exact Or.inr hSuspended

/-
  Every deadline is at most the timeout after an instant that
  has passed.
-/
structure Bounded (timeout : Nat) (s : Serve) : Prop where
  same : s.timer.timeout = timeout
  deadline : ∀ d,
    s.timer.deadline = some d ∨ s.timer.suspended = some d →
      d ≤ s.clock + timeout

variable {timeout : Nat}

/-
  What is inherited stays within its bound, as the clock
  goes on.
-/
theorem Bounded.inherit
    (hBounded : Bounded timeout s)
    (hInherits : Inherits s t) :
    Bounded timeout t := by
  refine ⟨hInherits.timeout.trans hBounded.same, ?_⟩
  intro d hd
  have hOld :=
    hBounded.deadline d (hInherits.deadline d hd)
  have hClock := hInherits.clock
  omega

/- An update sets the bound anew, at the clock's time. -/
theorem Bounded.update
    (hBounded : Bounded timeout s)
    (hClock : t.clock = s.clock)
    (hTimer : t.timer = s.timer.update s.clock) :
    Bounded timeout t := by
  rw [IdleTimer.update] at hTimer
  split at hTimer
  · rw [← hBounded.same]
    refine ⟨by rw [hTimer], ?_⟩
    intro d hd
    rw [hTimer] at hd
    rcases hd with hSet | hNone
    · cases hSuspended : s.timer.suspended with
      | none =>
          rw [hSuspended] at hSet
          have hSum := Option.some.inj hSet
          rw [Option.getD_none] at hSum
          omega
      | some suspended =>
          rw [hSuspended] at hSet
          have hSame := Option.some.inj hSet
          have hOld :=
            hBounded.deadline suspended (Or.inr hSuspended)
          rw [Option.getD_some] at hSame
          rw [hBounded.same]
          omega
    · cases hNone
  · apply hBounded.inherit
    refine ⟨by omega, by rw [hTimer], ?_⟩
    intro d hd
    rw [hTimer] at hd
    rcases hd with hNone | hSuspended
    · cases hNone
    · exact Or.inr hSuspended
  · exact hBounded.inherit (.of_timer (by omega) hTimer)

/- A postponement sets the bound anew as well. -/
theorem Bounded.postpone
    (hBounded : Bounded timeout s)
    (hClock : t.clock = s.clock)
    (hTimer : t.timer = s.timer.postpone s.clock) :
    Bounded timeout t := by
  rw [IdleTimer.postpone] at hTimer
  refine ⟨by rw [hTimer]; exact hBounded.same, ?_⟩
  intro d hd
  rw [hTimer] at hd
  rcases hd with hSet | hSuspended
  · have hSum := Option.some.inj hSet
    have hTimeout := hBounded.same
    omega
  · have hOld := hBounded.deadline d (Or.inr hSuspended)
    omega

/- Each step of the loop does one of the two. -/
theorem Bounded.next
    (hBounded : Bounded timeout s)
    (hNext : s.next e = some t) :
    Bounded timeout t := by
  cases next_eq_some hNext with
  | update => exact hBounded.update rfl rfl
  | postpone => exact hBounded.postpone rfl rfl
  | accept => exact hBounded.inherit (.accepted (Nat.le_refl _) rfl)
  | adopt => exact hBounded.inherit (.accepted (Nat.le_refl _) rfl)
  | receive => exact hBounded.inherit (.apply (Nat.le_refl _) rfl)
  | settle => exact hBounded.inherit (.apply (Nat.le_refl _) rfl)
  | initReady =>
      exact hBounded.inherit
        ⟨Nat.le_refl _, rfl, fun _ hd => hd⟩
  | tick d =>
      exact hBounded.inherit (.of_timer (Nat.le_add_right _ d) rfl)
  | _ => exact hBounded.inherit (.of_timer (Nat.le_refl _) rfl)

/-
  So no deadline of a run is further off than the timeout.
-/
theorem bounded_of_run
    {clock : Nat} {es : List Event}
    (hRun : machine.Run (.start timeout clock) es s) :
    Bounded timeout s := by
  apply Machine.Run.invariant
    (fun s e t hBounded hNext => Bounded.next hBounded hNext)
    hRun
  refine ⟨rfl, fun d hd => ?_⟩
  rcases hd with hNone | hNone
  · cases hNone
  · cases hNone

/- A daemon that is ready and has no connection, at an instant. -/
theorem exists_computes
    (timeout : Nat)
    {clock horizon : Nat}
    (hClock : clock ≤ horizon) :
    ∃ es s, machine.Run (.start timeout clock) es s ∧
      s.timer.timeout = timeout ∧
      s.computes .update = some horizon := by
  have hHorizon : clock + (horizon - clock) = horizon := by
    omega
  refine ⟨[.tick (horizon - clock), .update, .initDone true],
    { Serve.start timeout horizon with
      timer := (IdleTimer.new timeout).initSucceeded
      init := .ready }, ?_, rfl, rfl⟩
  apply Machine.Run.of_foldlM
  change
    some
        { Serve.start timeout (clock + (horizon - clock)) with
          timer := (IdleTimer.new timeout).initSucceeded
          init := .ready } = _
  rw [hHorizon]

end Serve

/-
  In the runs up to a horizon every deadline is computed, and
  representable, if and only if the timeout of the environment
  is no longer than what is left after the horizon.
-/
theorem deadlines_representable_iff
    (quoted : String → String)
    (raw : Option String)
    {clock horizon : Nat}
    (hClock : clock ≤ horizon) :
    (∀ es s,
        machine.Run
            (.start (Serve.idleTimeout quoted raw) clock) es s →
          s.clock ≤ horizon →
            (∀ e now, s.computes e = some now →
              (Instant.checkedAdd now
                s.timer.timeout).isSome = true) ∧
            ∀ deadline, s.timer.deadline = some deadline →
              deadline ≤ Instant.max) ↔
      horizon + Serve.idleTimeout quoted raw ≤ Instant.max := by
  constructor
  · intro hRuns
    rcases Serve.exists_computes
      (Serve.idleTimeout quoted raw) hClock with
      ⟨es, s, hRun, hTimeout, hComputes⟩
    have hAt := Serve.clock_of_computes hComputes
    have hFits :=
      (hRuns es s hRun (by omega)).1 .update horizon hComputes
    rw [Instant.checkedAdd_isSome_iff, hTimeout] at hFits
    exact hFits
  · intro hFits es s hRun hBefore
    have hBounded := Serve.bounded_of_run hRun
    constructor
    · intro e now hComputes
      have hAt := Serve.clock_of_computes hComputes
      rw [Instant.checkedAdd_isSome_iff, hBounded.same]
      omega
    · intro deadline hSet
      have hOld := hBounded.deadline deadline (Or.inl hSet)
      omega

/- The default, an hour after the machine has started. -/
theorem deadlines_representable_iff_unset :
    (Instant.checkedAdd (3600 * nanosPerSec)
      (Serve.idleTimeout id none)).isSome = true := by
  have hFits :
      3600 * nanosPerSec + Serve.idleTimeout id none ≤
        Instant.max := by
    decide
  rcases Serve.exists_computes (Serve.idleTimeout id none)
    (Nat.zero_le (3600 * nanosPerSec)) with
    ⟨es, s, hRun, hTimeout, hComputes⟩
  have hAt := Serve.clock_of_computes hComputes
  have hRuns :=
    (deadlines_representable_iff id none
      (Nat.zero_le (3600 * nanosPerSec))).mpr hFits
  rw [← hTimeout]
  exact (hRuns es s hRun (by omega)).1 .update _ hComputes

/-
  With the largest number of seconds the first deadline after
  the start has no instant.
-/
theorem deadline_overflows :
    ¬ ∀ (raw : Option String) es s e now,
      machine.Run
          (.start (Serve.idleTimeout id raw)
            (3600 * nanosPerSec)) es s →
        s.computes e = some now →
          (Instant.checkedAdd now s.timer.timeout).isSome =
            true := by
  intro hAll
  rcases Serve.exists_computes
    (Serve.idleTimeout id (some "18446744073709551615"))
    (Nat.le_refl (3600 * nanosPerSec)) with
    ⟨es, s, hRun, hTimeout, hComputes⟩
  have hFits := hAll _ es s .update _ hRun hComputes
  rw [Instant.checkedAdd_isSome_iff, hTimeout] at hFits
  revert hFits
  decide

end Daemon

end Ferrex
