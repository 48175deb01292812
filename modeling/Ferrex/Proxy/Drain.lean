import Ferrex.Proxy.Pump

/-
  The drain at the end of the input: it never misses the
  answer that it waits for, and when it ends because nothing
  is in flight all answers are queued ahead of the exit,
  unless it looks while the pump has shown the last one and
  not yet queued it.

  Main declarations:
    * `Session.Wakes`, `Session.Drains`
    * `Session.hurries`, `patient`
    * `drain_answered`
-/

------------------------------------------------------------
-- The Notification
------------------------------------------------------------

namespace Ferrex

namespace Proxy

variable {Line Value : Type}

/- The pump has shown a line and not yet looked again. -/
def Pump.notifies : Pump Line → Bool
| .send _ => true
| .check => true
| .notify => true
| _ => false

namespace Session

variable {setup : Setup} {codec : Codec Line Value}
variable {s t : Session Line Value} {e : Event Line}

/- The pump goes on to notify the waiter of the drain. -/
def Wakes
    (setup : Setup)
    (codec : Codec Line Value)
    (s : Session Line Value) : Prop :=
  ∃ n t,
    (machine setup codec).Run s (List.replicate n .pump) t ∧
      t.phase = s.phase ∧ t.notified = true

theorem wakes_of_notifies
    (hPump : s.pump.notifies = true)
    (hNone : s.tracker.hasInFlight = false) :
    s.Wakes setup codec := by
  have hNotify :
      ∀ s : Session Line Value, s.pump = .notify →
        (machine setup codec).step s .pump
          ({ s with notified := true }.pumping .reading) := by
    intro s hPump
    change s.pumpNext codec .pump = _
    unfold pumpNext
    rw [hPump]
  have hCheck :
      ∀ s : Session Line Value, s.pump = .check →
        s.tracker.hasInFlight = false →
          (machine setup codec).step s .pump
            (s.pumping .notify) := by
    intro s hPump hNone
    change s.pumpNext codec .pump = _
    simp only [pumpNext, hPump, hNone]
    rfl
  cases hAt : s.pump <;> rw [hAt] at hPump <;>
    simp only [Pump.notifies, reduceCtorEq] at hPump
  case send line =>
    have hSend :
        (machine setup codec).step s .pump
          ((s.record (.queued s.conn line)).pumping .check) := by
      change s.pumpNext codec .pump = _
      unfold pumpNext
      rw [hAt]
    exact ⟨3, _, .cons hSend (.cons (hCheck _ rfl hNone)
      (.single (hNotify _ rfl))), rfl, rfl⟩
  case check =>
    exact ⟨2, _, .cons (hCheck s hAt hNone)
      (.single (hNotify _ rfl)), rfl, rfl⟩
  case notify => exact ⟨1, _, .single (hNotify s hAt), rfl, rfl⟩

/-
  While the drain is blocked, and its waiter is not notified,
  a request is in flight or the pump is about to look.
-/
def Drains (s : Session Line Value) : Prop :=
  s.phase = .drainBlocked → s.notified = false →
    s.tracker.hasInFlight = false → s.pump.notifies = true

namespace Drains

theorem of_phase
    (hPhase : s.phase ≠ .drainBlocked) :
    s.Drains :=
  fun h => absurd h hPhase

theorem pumpMove
    (hDrains : s.Drains)
    (hMove : PumpMove codec s e t) :
    t.Drains := by
  cases hMove with
  | turn e pump hTurn =>
      intro hPhase hNotified hNone
      have hOld := hDrains hPhase hNotified hNone
      cases hTurn
      case free hPump =>
        rcases hPump with hPump | hPump <;>
          rw [hPump] at hOld <;> cases hOld
      case inFlight _ hInFlight =>
        exact absurd (hInFlight.symm.trans hNone) (by simp)
      case answered => rfl
      case cut hPump | full hPump | taken hPump _ |
        ended hPump =>
          rw [hPump] at hOld
          cases hOld
  | read line hPump =>
      intro hPhase hNotified hNone
      have hOld := hDrains hPhase hNotified hNone
      rw [hPump] at hOld
      cases hOld
  | takeHeld line hPump _ =>
      intro hPhase hNotified hNone
      have hOld := hDrains hPhase hNotified hNone
      rw [hPump] at hOld
      cases hOld
  | «show» line _ => exact fun _ _ _ => rfl
  | send line _ => exact fun _ _ _ => rfl
  | notify _ =>
      intro _ hNotified
      cases hNotified

/- Only the check of the drain blocks it. -/
theorem mainMove
    (hMove : MainMove codec s e t) :
    t.Drains := by
  cases hMove with
  | hop e phase hHop =>
      cases hHop
      case blocked _ hInFlight =>
        intro _ _ hNone
        exact absurd (hInFlight.symm.trans hNone) (by simp)
      all_goals exact of_phase (fun h => by cases h)
  | wait line _ _ _ _ hPhase =>
      refine of_phase ?_
      unfold waitLine
      split
      · change s.phase ≠ _
        simp [hPhase]
      · change s.phase ≠ _
        simp [hPhase]
  | skip line exe _ _ _ _ _ hPhase _ _ =>
      refine of_phase ?_
      change s.phase ≠ _
      simp [hPhase]
  | fail e _ _ _ _ u t _ _ _ hFailed =>
      cases hFailed <;> exact of_phase (fun h => by cases h)
  | adopt e after _ _ _ _ _ u _ _ =>
      cases after <;> exact of_phase (fun h => by cases h)
  | loss t _ _ hLost =>
      cases hLost with
      | now kept _ hUsed =>
          unfold reconnectNow
          rw [if_neg (Nat.not_le.mpr hUsed)]
          exact of_phase (fun h => by cases h)
      | _ => exact of_phase (fun h => by cases h)
  | awaitLine line hPhase =>
      refine of_phase ?_
      unfold awaitLine
      split
      · exact fun h => by cases h
      · change s.phase ≠ _
        simp [hPhase]
  | _ => exact of_phase (fun h => by cases h)

theorem of_reachable
    (hReach : (machine setup codec).Reachable s) :
    s.Drains :=
  invariant_of_reachable (of_phase (fun h => by cases h))
    (fun _ _ _ hDrains hMove => hDrains.pumpMove hMove)
    (fun _ _ _ _ hMove => mainMove hMove) hReach

end Drains

------------------------------------------------------------
-- The End of the Drain
------------------------------------------------------------

/-
  The drain looks between the pump's removal of the last id in
  flight and the send of its line.
-/
def hurries (s : Session Line Value) : Event Line → Bool
| .step =>
    match s.phase with
    | .drainCheck =>
        !s.tracker.hasInFlight && !s.pump.toSend.isEmpty
    | _ => false
| _ => false

end Session

/- The runs in which the drain does not look in between. -/
def patient
    (setup : Setup)
    (codec : Codec Line Value) :
    Machine (Session Line Value) (Event Line) :=
  (machine setup codec).restrict
    (fun s e => s.hurries e = false)

/-
  Whenever the drain is blocked, a request is in flight or its
  waiter is notified yet.  When it ends because no request is
  in flight, all lines that were shown to the tracker, those
  that have answered a request among them, are queued ahead of
  the exit, in the runs in which the drain does not look
  between the removal of the last id and the send.
-/
theorem drain_answered
    {setup : Setup} {codec : Codec Line Value}
    {s : Session Line Value}
    (hReach : (patient setup codec).Reachable s) :
    (s.phase = .drainBlocked →
      s.tracker.hasInFlight = true ∨ s.notified = true ∨
        s.Wakes setup codec) ∧
      ∀ t, (patient setup codec).step s .step t →
        s.phase = .drainCheck →
          s.tracker.hasInFlight = false →
            t.log = s.log ++ [.exit 0] ∧
              ∀ c, lines .shown c s.log =
                lines .queued c s.log := by
  have hReach' : (machine setup codec).Reachable s := by
    rcases hReach with ⟨s₀, es, hStart, hRun⟩
    exact ⟨s₀, es, hStart, hRun.of_restrict⟩
  constructor
  · intro hPhase
    cases hInFlight : s.tracker.hasInFlight with
    | true => exact Or.inl rfl
    | false =>
        cases hNotified : s.notified with
        | true => exact Or.inr (Or.inl rfl)
        | false =>
            have hPump := Session.Drains.of_reachable hReach'
              hPhase hNotified hInFlight
            exact Or.inr (Or.inr
              (Session.wakes_of_notifies hPump hInFlight))
  · rintro t ⟨hNext, hPatient⟩ hPhase hInFlight
    change s.mainNext setup codec .step = some t at hNext
    simp only [Session.mainNext, hPhase, hInFlight] at hNext
    cases hNext
    refine ⟨rfl, fun c => ?_⟩
    have hSend : s.pump.toSend = [] := by
      simpa [Session.hurries, hPhase, hInFlight] using hPatient
    have hQueued :=
      (Session.Orderly.of_reachable hReach').queued c
    rw [hSend, ite_self, List.append_nil] at hQueued
    exact hQueued

/- One request is in flight when the client closes stdin. -/
private def closing : List (Event (Envelope String)) :=
  [.begin, .connected "k" ⟨true, none⟩, .step,
    .client (.call "1" "tools/list"), .written, .eof]

/- The answer is queued when the drain looks. -/
theorem drain_answered_last :
    ∃ s t : Session (Envelope String) String,
      s.phase = .drainCheck ∧
        (patient .sample .members).step s .step t ∧
          lines .shown 1 s.log = [.answer "1"] ∧
            t.log = s.log ++ [.exit 0] ∧
              lines .shown 1 s.log = lines .queued 1 s.log := by
  let events : List (Event (Envelope String)) :=
    closing ++ [.step, .step, .read (.answer "1"), .credit true,
      .pump, .pump, .pump, .pump, .pump, .step, .step]
  let test : Session (Envelope String) String → Bool := fun s =>
    decide (s.phase = .drainCheck) &&
      decide (lines .shown 1 s.log = [.answer "1"]) &&
        !s.hurries .step && !s.tracker.hasInFlight &&
          (s.next .sample .members .step).isSome
  have hComputed :
      (events.foldlM
        (Machine.checked (Session.next .sample .members)
          (fun s e => !s.hurries e)) .start).any test = true := by
    decide +kernel
  rcases Machine.Run.restrict_of_any (fun s => s = .start) _ _ _
    (fun s e h => (Bool.not_eq_true' _).mp h)
    hComputed with ⟨s, hRun, hTest⟩
  simp only [test, Bool.and_eq_true, decide_eq_true_eq,
    Bool.not_eq_true'] at hTest
  rcases hTest with
    ⟨⟨⟨⟨hPhase, hShown⟩, hPatient⟩, hInFlight⟩, hSome⟩
  rcases Option.isSome_iff_exists.mp hSome with ⟨t, hNext⟩
  have hStep : (patient .sample .members).step s .step t :=
    ⟨hNext, hPatient⟩
  have hDrained := (drain_answered ⟨_, events, rfl, hRun⟩).2 t
    hStep hPhase hInFlight
  exact ⟨s, t, hPhase, hStep, hShown, hDrained.1, hDrained.2 1⟩

/-
  The drain looks when the pump has removed the last id, and
  exits: the line of the answer is queued behind the exit.
-/
theorem answer_behind_exit :
    ¬ ∀ s t : Session (Envelope String) String,
      (machine .sample .members).Reachable s →
        s.next .sample .members .step = some t →
          s.phase = .drainCheck →
            s.tracker.hasInFlight = false →
              ∀ c, lines .shown c s.log =
                lines .queued c s.log := by
  intro hAll
  rcases run_of_any .sample .members
    (closing ++ [.step, .read (.answer "1"), .credit true,
      .pump, .pump])
    (fun s => decide (s.phase = .drainCheck) &&
      !s.tracker.hasInFlight &&
        (s.next .sample .members .step).isSome &&
          !decide (lines .shown 1 s.log = lines .queued 1 s.log))
    (by decide +kernel) with ⟨s, hReach, hTest⟩
  simp only [Bool.and_eq_true, decide_eq_true_eq,
    Bool.not_eq_true', decide_eq_false_iff_not] at hTest
  rcases hTest with ⟨⟨⟨hPhase, hInFlight⟩, hSome⟩, hLost⟩
  rcases Option.isSome_iff_exists.mp hSome with ⟨t, hNext⟩
  exact hLost (hAll s t hReach hNext hPhase hInFlight 1)

end Proxy

end Ferrex
