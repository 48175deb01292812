import Mathlib.Data.List.Basic
import Mathlib.Data.List.Induction
import Mathlib.Order.Basic

/-
  Events in a sliding window: a record of the events that have
  not expired, and the bound on every window that holds when
  each event found room in the window that ends at it.

  Main declarations:
    * `Window`, `Window.live`
    * `Window.dropWhile_eq_live`
    * `Window.Admitted`, `Window.Admitted.length_filter_le`
    * `Window.Stands`
-/

------------------------------------------------------------
-- Windows
------------------------------------------------------------

namespace Ferrex

/-
  `expired now t` says that an event at `t` has left the window
  that ends at `now`.
-/
structure Window (T : Type) [Preorder T] where
  expired : T → T → Bool
  later :
    ∀ {now next t}, now ≤ next →
      expired now t = true → expired next t = true
  older :
    ∀ {now t u}, t ≤ u →
      expired now u = true → expired now t = true

namespace Window

variable {T : Type} [Preorder T] {W : Window T}
variable {now next t : T} {events record : List T}

/- The events in the window that ends at `now`. -/
def live
    (W : Window T)
    (now : T)
    (events : List T) : List T :=
  events.filter (fun t => !W.expired now t)

/-
  What a later window keeps does not depend on an earlier
  one.
-/
theorem live_live
    (hLater : now ≤ next) :
    W.live next (W.live now events) = W.live next events := by
  unfold live
  rw [List.filter_filter]
  apply List.filter_congr
  intro t _
  cases hNext : W.expired next t with
  | true => rfl
  | false =>
      cases hNow : W.expired now t with
      | true => rw [W.later hLater hNow] at hNext; cases hNext
      | false => rfl

/- In a sorted record, those that expired are at the front. -/
theorem dropWhile_eq_live
    (hSorted : record.Pairwise (· ≤ ·)) :
    record.dropWhile (W.expired now) = W.live now record := by
  induction record with
  | nil => rfl
  | cons t record ih =>
      rw [List.pairwise_cons] at hSorted
      cases hExpired : W.expired now t with
      | true =>
          rw [List.dropWhile_cons_of_pos hExpired,
            ih hSorted.2]
          unfold live
          rw [List.filter_cons_of_neg (by simp [hExpired])]
      | false =>
          have hAll : W.live now (t :: record) = t :: record := by
            apply List.filter_eq_self.mpr
            intro u hMem
            have hOlder : W.expired now u ≠ true := by
              intro hGone
              rcases List.mem_cons.mp hMem with hHead | hTail
              · rw [hHead, hExpired] at hGone
                cases hGone
              · rw [W.older (hSorted.1 u hTail) hGone] at hExpired
                cases hExpired
            simpa using hOlder
          rw [hAll]
          exact List.dropWhile_cons_of_neg (by simp [hExpired])

------------------------------------------------------------
-- Events That Found Room
------------------------------------------------------------

/- At each event, the window had room for it. -/
def Admitted
    (W : Window T)
    (limit : Nat)
    (events : List T) : Prop :=
  ∀ front t rest, events = front ++ t :: rest →
    (W.live t front).length < limit

variable {limit : Nat}

namespace Admitted

/- No events are within any limit. -/
theorem nil : W.Admitted limit [] := by
  intro front t rest hSplit
  simp at hSplit

/- What was admitted was admitted at each time before. -/
theorem front
    (hAdmitted : W.Admitted limit (events ++ [t])) :
    W.Admitted limit events := by
  intro front u rest hSplit
  apply hAdmitted front u (rest ++ [t])
  rw [hSplit, List.append_assoc, List.cons_append]

/- One more is admitted if the window has room for it. -/
theorem snoc
    (hAdmitted : W.Admitted limit events)
    (hRoom : (W.live t events).length < limit) :
    W.Admitted limit (events ++ [t]) := by
  intro front u rest hSplit
  rcases List.eq_nil_or_concat rest with hNil | ⟨rest', v, hRest⟩
  · rw [hNil] at hSplit
    rcases List.append_inj' hSplit rfl with ⟨hFront, hLast⟩
    cases hLast
    rw [← hFront]
    exact hRoom
  · rw [hRest, List.concat_eq_append, ← List.cons_append,
      ← List.append_assoc] at hSplit
    rcases List.append_inj' hSplit rfl with ⟨hFront, -⟩
    exact hAdmitted front u rest' hFront

/-
  No window holds more than the limit: `inside` picks events
  of which none has expired at another.
-/
theorem length_filter_le
    {inside : T → Bool}
    (hAdmitted : W.Admitted limit events)
    (hInside :
      ∀ t u, inside t = true → inside u = true →
        W.expired u t = false) :
    (events.filter inside).length ≤ limit := by
  induction events using List.reverseRecOn with
  | nil => exact Nat.zero_le _
  | append_singleton events u ih =>
      have hBefore := ih hAdmitted.front
      rw [List.filter_append, List.length_append]
      cases hLast : inside u with
      | false =>
          rw [List.filter_cons_of_neg (by simp [hLast])]
          exact hBefore
      | true =>
          -- What is inside with the last has not expired at it.
          have hLive :
              (events.filter inside).Sublist
                (W.live u events) := by
            apply List.monotone_filter_right
            intro t hIn
            simp [hInside t u hIn hLast]
          have hRoom := hAdmitted events u [] rfl
          have hLe := hLive.length_le
          rw [List.filter_cons_of_pos hLast]
          simp only [List.filter_nil, List.length_singleton]
          omega

end Admitted

------------------------------------------------------------
-- Records
------------------------------------------------------------

/-
  From `now` on, the record tells as much as all the events.
-/
def Stands
    (W : Window T)
    (now : T)
    (record events : List T) : Prop :=
  ∀ next, now ≤ next → W.live next record = W.live next events

namespace Stands

/- A record stands in for the events at later times too. -/
theorem mono
    (hStands : W.Stands now record events)
    (hLater : now ≤ next) :
    W.Stands next record events :=
  fun last hLast => hStands last (hLater.trans hLast)

/- Those that have expired can be forgotten. -/
theorem prune
    (hStands : W.Stands now record events) :
    W.Stands now (W.live now record) events := by
  intro next hLater
  rw [live_live hLater]
  exact hStands next hLater

/- Record and events grow together. -/
theorem snoc
    (hStands : W.Stands now record events) :
    W.Stands now (record ++ [t]) (events ++ [t]) := by
  intro next hLater
  unfold live
  rw [List.filter_append, List.filter_append]
  exact congrArg (· ++ _) (hStands next hLater)

end Stands

end Window

end Ferrex
