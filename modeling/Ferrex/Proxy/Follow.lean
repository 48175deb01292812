import Ferrex.Proxy.Budget
import Ferrex.Proxy.Loop

/-
  The pump of the budget against the pump of the session: the
  session forgets the permits and the announcement of a park,
  and takes the steps of the budget's pump otherwise.

  Main declarations:
    * `Pump.unmetered`, `Output.turnOf`
    * `Follows`, `Follows.step`
-/

------------------------------------------------------------
-- The Pump Without Permits
------------------------------------------------------------

namespace Ferrex

namespace Proxy

namespace Budget

/- All of a park is one stage of the session. -/
def Pump.unmetered : Pump → Proxy.Pump Bytes
| .stopped => .stopped
| .joined => .stopped
| .reading => .reading
| .trying _ => .tryAcquire
| .starting _ => .parked
| .announcing _ => .parked
| .requesting _ => .parked
| .parked _ => .parked
| .taking _ => .takeHeld
| .show line _ => .show line
| .send line _ => .send line
| .check => .check
| .notify => .notify
| .ended => .ended
| .done => .done

/- What the session's pump does meanwhile, if anything. -/
def Output.turnOf
    (b : Output) : Event → List (Proxy.Event Bytes)
| .read line => [.read line]
| .cut => [.cut]
| .pump =>
    match b.pump with
    | .trying c => [.credit (b.permits.tryAcquire c).isSome]
    | .starting _ => []
    | .announcing _ => []
    | .requesting _ => []
    | .parked _ => [.credit true]
    | _ => [.pump]
| .checked _ => [.pump]
| _ => []

variable {Value : Type} {setup : Setup}
variable {codec : Codec Bytes Value}
variable {b b' : Output} {s : Session Bytes Value} {e : Event}

/-
  The two pumps are at one place with one line.  A pump that
  was aborted stands where it can be aborted, until the
  session takes its line.
-/
structure Follows
    (b : Output)
    (s : Session Bytes Value) : Prop where
  held : s.held = b.held
  pump : b.pump ≠ .joined → s.pump = b.pump.unmetered
  joined : b.pump = .joined → s.pump.joinable = true

namespace Follows

theorem pump_eq
    {pump : Pump}
    (hFollows : Follows b s)
    (hPump : b.pump = pump)
    (hGoing : pump ≠ .joined) :
    s.pump = pump.unmetered := by
  rw [← hPump] at hGoing ⊢
  exact hFollows.pump hGoing

/- What leaves the budget's pump and its line alone. -/
theorem stay
    (hFollows : Follows b s)
    (hPump : b'.pump = b.pump)
    (hHeld : b'.held = b.held) :
    Follows b' s where
  held := hFollows.held.trans hHeld.symm
  pump := by
    rw [hPump]
    exact hFollows.pump
  joined := by
    rw [hPump]
    exact hFollows.joined

/- The session has got to where the budget's pump is. -/
theorem reach
    (hHeld : s.held = b.held)
    (hPump : s.pump = b.pump.unmetered)
    (hGoing : b.pump ≠ .joined) :
    Follows b s where
  held := hHeld
  pump := fun _ => hPump
  joined := fun hJoined => absurd hJoined hGoing

/- The session's pump takes a step, and gets there. -/
theorem turn
    {e' : Proxy.Event Bytes} {s' : Session Bytes Value}
    (hTurn : b.turnOf e = [e'])
    (hEvent : s.next setup codec e' = s.pumpNext codec e')
    (hNext : s.pumpNext codec e' = some s')
    (hHeld : s'.held = b'.held)
    (hPump : s'.pump = b'.pump.unmetered)
    (hGoing : b'.pump ≠ .joined) :
    ∃ s', (Proxy.machine setup codec).Run s (b.turnOf e) s' ∧
      Follows b' s' := by
  rw [hTurn]
  exact ⟨s', .single (hEvent.trans hNext),
    reach hHeld hPump hGoing⟩

/- The session's pump stays where it is. -/
theorem still
    (hTurn : b.turnOf e = [])
    (hFollows : Follows b' s) :
    ∃ s', (Proxy.machine setup codec).Run s (b.turnOf e) s' ∧
      Follows b' s' := by
  rw [hTurn]
  exact ⟨s, .nil, hFollows⟩

/- An abort stops the session's pump where it is. -/
theorem abort
    (hFollows : Follows b s)
    (hPump : b'.pump = .joined)
    (hHeld : b'.held = b.held)
    (hAbortable : s.pump.joinable = true) :
    Follows b' s where
  held := hFollows.held.trans hHeld.symm
  pump := fun hGoing => absurd hPump hGoing
  joined := fun _ => hAbortable

/- Where only the place of the pump changes. -/
theorem goesOn
    {pump : Pump}
    (hFollows : Follows b s)
    (hTurn : Turn b e pump)
    (hLoss : e ≠ .loss)
    (hConnect : e ≠ .connect)
    (hChecked :
      ∀ inFlight, e = .checked inFlight →
        s.tracker.hasInFlight = inFlight) :
    ∃ s', (Proxy.machine setup codec).Run s (b.turnOf e) s' ∧
      Follows (b.pumping pump) s' := by
  cases hTurn with
  | cut hPump =>
      have hAt := hFollows.pump_eq hPump (by simp)
      have hNext :
          s.pumpNext codec .cut = some (s.pumping .ended) := by
        simp only [Session.pumpNext, hAt, Pump.unmetered]
      exact turn rfl rfl hNext hFollows.held rfl
        (by simp [Output.pumping])
  | full c hPump hFull =>
      have hAt := hFollows.pump_eq hPump (by simp)
      have hNext :
          s.pumpNext codec (.credit false) =
            some (s.pumping .parked) := by
        simp [Session.pumpNext, hAt, Pump.unmetered]
      refine turn ?_ rfl hNext hFollows.held rfl
        (by simp [Output.pumping])
      simp only [Output.turnOf, hPump, hFull,
        Option.isSome_none]
  | shown line credit hPump =>
      have hAt := hFollows.pump_eq hPump (by simp)
      have hNext :
          s.pumpNext codec .pump =
            some (((s.onDaemonLine codec line).record
              (.shown s.conn line)).pumping (.send line)) := by
        simp only [Session.pumpNext, hAt, Pump.unmetered]
      refine turn ?_ rfl hNext hFollows.held rfl
        (by simp [Output.pumping])
      simp only [Output.turnOf, hPump]
  | inFlight hPump | answered hPump =>
      have hAt := hFollows.pump_eq hPump (by simp)
      have hTracked := hChecked _ rfl
      have hNext :
          s.pumpNext codec .pump =
            some (s.pumping
              (if s.tracker.hasInFlight then
                .reading
              else
                .notify)) := by
        simp only [Session.pumpNext, hAt, Pump.unmetered]
      rw [hTracked] at hNext
      exact turn rfl rfl hNext hFollows.held rfl
        (by simp [Output.pumping])
  | notified hPump =>
      have hAt := hFollows.pump_eq hPump (by simp)
      have hNext :
          s.pumpNext codec .pump =
            some ({ s with notified := true }.pumping
              .reading) := by
        simp only [Session.pumpNext, hAt, Pump.unmetered]
      refine turn ?_ rfl hNext hFollows.held rfl
        (by simp [Output.pumping])
      simp only [Output.turnOf, hPump]
  | ended hPump =>
      have hAt := hFollows.pump_eq hPump (by simp)
      have hNext :
          s.pumpNext codec .pump = some (s.pumping .done) := by
        simp only [Session.pumpNext, hAt, Pump.unmetered]
      refine turn ?_ rfl hNext hFollows.held rfl
        (by simp [Output.pumping])
      simp only [Output.turnOf, hPump]
  | aborted hPump | returned hPump =>
      have hAt := hFollows.pump_eq hPump (by simp)
      have hAbortable : s.pump.joinable = true := by
        rw [hAt]
        rfl
      exact still rfl (hFollows.abort rfl rfl hAbortable)
  | emptyHanded => contradiction
  | connected => contradiction

/-
  The session's pump goes along, as long as its own tracker
  answers the pump and the main task leaves it alone.
-/
theorem step
    (hFollows : Follows b s)
    (hStep : machine.step b e b')
    (hLoss : e ≠ .loss)
    (hConnect : e ≠ .connect)
    (hChecked :
      ∀ inFlight, e = .checked inFlight →
        s.tracker.hasInFlight = inFlight) :
    ∃ s', (Proxy.machine setup codec).Run s (b.turnOf e) s' ∧
      Follows b' s' := by
  have hMove := Output.move_of_next hStep
  cases hMove with
  | turn e pump hTurn =>
      exact hFollows.goesOn hTurn hLoss hConnect hChecked
  | read line hPump hLine =>
      have hAt := hFollows.pump_eq hPump (by simp)
      have hNext :
          s.pumpNext codec (.read line) =
            some ((({ s with held := some line }).record
              (.read s.conn line)).pumping .tryAcquire) := by
        simp only [Session.pumpNext, hAt, Pump.unmetered]
      exact turn rfl rfl hNext rfl rfl (by simp)
  | acquired c permits hPump hFree =>
      have hAt := hFollows.pump_eq hPump (by simp)
      have hNext :
          s.pumpNext codec (.credit true) =
            some (s.pumping .takeHeld) := by
        simp [Session.pumpNext, hAt, Pump.unmetered]
      refine turn ?_ rfl hNext hFollows.held rfl (by simp)
      simp only [Output.turnOf, hPump, hFree, Option.isSome_some]
  | began c hPump =>
      have hAt := hFollows.pump_eq hPump (by simp)
      apply still
      · simp only [Output.turnOf, hPump]
      · exact reach hFollows.held hAt (by simp [Output.pumping])
  | announced c hPump | requested c _ hPump _ =>
      have hAt := hFollows.pump_eq hPump (by simp)
      apply still
      · simp only [Output.turnOf, hPump]
      · exact reach hFollows.held hAt (by simp)
  | resumed c n permits hPump hTaken =>
      have hAt := hFollows.pump_eq hPump (by simp)
      have hNext :
          s.pumpNext codec (.credit true) =
            some (s.pumping .takeHeld) := by
        simp [Session.pumpNext, hAt, Pump.unmetered]
      refine turn ?_ rfl hNext hFollows.held rfl (by simp)
      simp only [Output.turnOf, hPump]
  | taken line credit hPump hHeld =>
      have hAt := hFollows.pump_eq hPump (by simp)
      have hLine := hFollows.held.trans hHeld
      have hNext :
          s.pumpNext codec .pump =
            some ({ s with held := none }.pumping
              (.show line)) := by
        simp only [Session.pumpNext, hAt, Pump.unmetered, hLine]
      refine turn ?_ rfl hNext rfl rfl (by simp)
      simp only [Output.turnOf, hPump]
  | dropped credit hPump hHeld =>
      have hAt := hFollows.pump_eq hPump (by simp)
      have hNone := hFollows.held.trans hHeld
      have hNext :
          s.pumpNext codec .pump = some (s.pumping .ended) := by
        simp only [Session.pumpNext, hAt, Pump.unmetered, hNone]
      refine turn ?_ rfl hNext hFollows.held rfl (by simp)
      simp only [Output.turnOf, hPump]
  | sent line credit hPump =>
      have hAt := hFollows.pump_eq hPump (by simp)
      have hNext :
          s.pumpNext codec .pump =
            some ((s.record (.queued s.conn line)).pumping
              .check) := by
        simp only [Session.pumpNext, hAt, Pump.unmetered]
      refine turn ?_ rfl hNext hFollows.held rfl
        (by simp [Output.pumping])
      simp only [Output.turnOf, hPump]
  | withdrawn c hPump | cancelled c hPump =>
      have hAt := hFollows.pump_eq hPump (by simp)
      have hAbortable : s.pump.joinable = true := by
        rw [hAt]
        rfl
      exact still rfl (hFollows.abort rfl rfl hAbortable)
  | lost => contradiction
  | exits e hEvent =>
      rcases hEvent with hRecv | hFailed
      · rw [hRecv]
        exact still rfl (hFollows.stay rfl rfl)
      · rw [hFailed]
        exact still rfl (hFollows.stay rfl rfl)
  | watch e watcher es hWatch =>
      cases hWatch <;>
        exact still rfl (hFollows.stay rfl rfl)
  | queued | exiting | received | wrote | wroteFree | passes =>
      exact still rfl (hFollows.stay rfl rfl)

end Follows

end Budget

end Proxy

end Ferrex
