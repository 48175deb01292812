import Mathlib.Data.Nat.Basic
import Ferrex.Lib.Transition
import Ferrex.Lib.Window

/-
  The budget for restarts of the sidecar: `Watcher::restart`
  starts it again and again, at most a few times in every
  window of time.

  Main declarations:
    * `RestartBudget.available`, `RestartBudget.spend`
    * `Watcher`, `Watcher.next`, `machine`
    * `Watcher.Budgeted`, `Budgeted.of_reachable`
    * `RestartsBounded`, `restarts_bounded`
-/

------------------------------------------------------------
-- The Budget
------------------------------------------------------------

namespace Ferrex

namespace Store

namespace Restart

/- Three restarts are allowed in the window. -/
def restartLimit : Nat := 3

/- Ten minutes, in nanoseconds. -/
def restartWindow : Nat := 600 * 1000000000

/- Two seconds, in nanoseconds. -/
def reusePoll : Nat := 2 * 1000000000

/- The difference of two instants saturates at zero. -/
def expired (now t : Nat) : Bool :=
  restartWindow < now - t

/- When the last restarts were. -/
structure RestartBudget where
  spent : List Nat
deriving DecidableEq

namespace RestartBudget

/-
  Restarts that have left the window are forgotten, then the
  rest is counted.
-/
def available
    (b : RestartBudget)
    (now : Nat) : Bool × RestartBudget :=
  let spent := b.spent.dropWhile (expired now)
  (spent.length < restartLimit, { spent := spent })

/- One more restart. -/
def spend
    (b : RestartBudget)
    (now : Nat) : RestartBudget :=
  { spent := b.spent ++ [now] }

end RestartBudget

/- The closed window of this length that ends at an instant. -/
def window : Window Nat where
  expired := expired
  later := by
    intro now next t hLater hExpired
    unfold expired at hExpired ⊢
    simp only [decide_eq_true_eq] at hExpired ⊢
    omega
  older := by
    intro now t u hOlder hExpired
    unfold expired at hExpired ⊢
    simp only [decide_eq_true_eq] at hExpired ⊢
    omega

------------------------------------------------------------
-- The Watcher
------------------------------------------------------------

/- What a single start of the sidecar comes to. -/
inductive Outcome where
| spawned
| reused
| failed
deriving DecidableEq

/-
  Where the watcher is: it waits for the sidecar to exit, it
  is at the top of the loop of `restart`, it starts the
  sidecar, with the instant of its check, or it sleeps.
-/
inductive Stage where
| waiting
| checking
| starting (now : Nat)
| sleeping (wake : Nat)
| ended
deriving DecidableEq

/- `spends` are all spends so far, as a history. -/
structure Watcher where
  budget : RestartBudget
  stop : Bool
  stage : Stage
  clock : Nat
  spends : List Nat
deriving DecidableEq

/-
  `exited` ends the wait for the sidecar, `turn` is a turn of
  the loop up to the start, `outcome` its end, and `wake` the
  end of a sleep.
-/
inductive Event where
| tick (d : Nat)
| stop
| exited
| turn
| outcome (outcome : Outcome)
| wake
deriving DecidableEq

namespace Watcher

/- A watcher that has restarted nothing. -/
def start : Watcher where
  budget := { spent := [] }
  stop := false
  stage := .waiting
  clock := 0
  spends := []

/- It is at another stage. -/
def «at» (w : Watcher) (stage : Stage) : Watcher :=
  { w with stage := stage }

/- It waits for the next check. -/
def sleep (w : Watcher) : Watcher :=
  w.at (.sleeping (w.clock + reusePoll))

/- It spends a restart. -/
def spend (w : Watcher) (now : Nat) : Watcher :=
  { w with
    budget := w.budget.spend now
    spends := w.spends ++ [now] }

/- What it does when the sidecar was found dead. -/
def turn (w : Watcher) : Watcher :=
  if w.stop then
    w.at .ended
  else
    let checked := w.budget.available w.clock
    let w := { w with budget := checked.2 }
    if checked.1 then w.at (.starting w.clock) else w.sleep

/- The spend is at the instant of the check. -/
def settle (w : Watcher) (now : Nat) : Outcome → Watcher
| .spawned => (w.spend now).at .waiting
| .reused => w.at .waiting
| .failed => (w.spend now).sleep

/- One step of its loop. -/
def next (w : Watcher) (e : Event) : Option Watcher :=
  match e, w.stage with
  | .tick d, _ => some { w with clock := w.clock + d }
  | .stop, _ => some { w with stop := true }
  | .exited, .waiting =>
      some (w.at (if w.stop then .ended else .checking))
  | .turn, .checking => some w.turn
  | .outcome outcome, .starting now =>
      some (w.settle now outcome)
  | .wake, .sleeping wake =>
      if wake ≤ w.clock then some (w.at .checking) else none
  | _, _ => none

end Watcher

/- The watcher, whatever it finds. -/
def machine : Machine Watcher Event :=
  .ofNext (fun w => w = .start) Watcher.next

------------------------------------------------------------
-- What the Budget Knows
------------------------------------------------------------

namespace Watcher

variable {w v : Watcher} {e : Event} {now : Nat}

/- The instant that the next spend would have. -/
def instant (w : Watcher) : Nat :=
  match w.stage with
  | .starting now => now
  | _ => w.clock

/-
  The record is the end of the history of spends, and stands
  for it.  While a start goes on, there is room for its spend.
-/
structure Budgeted (w : Watcher) : Prop where
  instant_le : w.instant ≤ w.clock
  suffix : w.budget.spent <:+ w.spends
  sorted : w.spends.Pairwise (· ≤ ·)
  past : ∀ t ∈ w.spends, t ≤ w.instant
  stands : window.Stands w.instant w.budget.spent w.spends
  admitted : window.Admitted restartLimit w.spends
  room :
    ∀ now, w.stage = .starting now →
      (window.live now w.spends).length < restartLimit

namespace Budgeted

/- Restarts are recorded in the order of time. -/
theorem sorted_spent
    (hBudgeted : w.Budgeted) :
    w.budget.spent.Pairwise (· ≤ ·) :=
  hBudgeted.sorted.sublist hBudgeted.suffix.sublist

/- What is left of the budget is what the window has. -/
theorem spent_available
    (hBudgeted : w.Budgeted)
    (now : Nat) :
    (w.budget.available now).2.spent =
      window.live now w.budget.spent :=
  Window.dropWhile_eq_live (W := window) hBudgeted.sorted_spent

/- The check counts the spends in the window at the instant. -/
theorem available_iff
    (hBudgeted : w.Budgeted)
    (hInstant : w.instant ≤ now) :
    (w.budget.available now).1 = true ↔
      (window.live now w.spends).length < restartLimit := by
  have hSpent := hBudgeted.spent_available now
  rw [hBudgeted.stands now hInstant] at hSpent
  rw [← hSpent]
  exact decide_eq_true_iff

/- What keeps the spends, and does not begin a start. -/
theorem same
    (hBudgeted : w.Budgeted)
    (hBudget : v.budget = w.budget)
    (hSpends : v.spends = w.spends)
    (hInstant : w.instant ≤ v.instant)
    (hClock : v.instant ≤ v.clock)
    (hStage : ∀ now, v.stage = .starting now → v.stage = w.stage) :
    v.Budgeted where
  instant_le := hClock
  suffix := by
    rw [hBudget, hSpends]
    exact hBudgeted.suffix
  sorted := by
    rw [hSpends]
    exact hBudgeted.sorted
  past := by
    rw [hSpends]
    exact fun t hMem =>
      Nat.le_trans (hBudgeted.past t hMem) hInstant
  stands := by
    rw [hBudget, hSpends]
    exact hBudgeted.stands.mono hInstant
  admitted := by
    rw [hSpends]
    exact hBudgeted.admitted
  room := by
    rw [hSpends]
    intro now hStarting
    apply hBudgeted.room now
    rw [← hStage now hStarting]
    exact hStarting

/- The record is pruned at a check. -/
theorem pruned
    (hBudgeted : w.Budgeted)
    (hInstant : w.instant = w.clock)
    (hStage : ∀ now, w.stage ≠ .starting now) :
    Budgeted
      { w with budget := (w.budget.available w.clock).2 } := by
  have hSpent := hBudgeted.spent_available w.clock
  constructor
  case instant_le => exact hBudgeted.instant_le
  case suffix =>
    exact (List.dropWhile_suffix _).trans hBudgeted.suffix
  case sorted => exact hBudgeted.sorted
  case past => exact hBudgeted.past
  case stands =>
    change
      window.Stands w.instant
        (w.budget.available w.clock).2.spent w.spends
    rw [hSpent, ← hInstant]
    exact hBudgeted.stands.prune
  case admitted => exact hBudgeted.admitted
  case room =>
    exact fun now hStarting => absurd hStarting (hStage now)

/- A turn spends within the budget, or it does not spend. -/
theorem turn
    (hBudgeted : w.Budgeted)
    (hStage : w.stage = .checking) :
    w.turn.Budgeted := by
  have hInstant : w.instant = w.clock := by
    unfold instant
    rw [hStage]
  have hNot : ∀ now, w.stage ≠ .starting now := by
    intro now
    rw [hStage]
    exact fun h => by cases h
  have hPruned := hBudgeted.pruned hInstant hNot
  unfold Watcher.turn
  split
  · exact hBudgeted.same (v := w.at .ended) rfl rfl
      hBudgeted.instant_le (Nat.le_refl _)
      (fun _ h => by cases h)
  · dsimp only
    split
    · rename_i hAvailable
      have hRoom :=
        (hBudgeted.available_iff hBudgeted.instant_le).mp
          hAvailable
      refine ⟨Nat.le_refl _, hPruned.suffix, hPruned.sorted,
        ?_, ?_, hPruned.admitted, ?_⟩
      · intro t hMem
        exact Nat.le_trans (hBudgeted.past t hMem)
          hBudgeted.instant_le
      · exact hPruned.stands.mono hBudgeted.instant_le
      · intro now hStarting
        cases hStarting
        exact hRoom
    · exact hPruned.same rfl rfl hBudgeted.instant_le
        (Nat.le_refl _) (fun _ h => by cases h)

/- The spend of a start that has ended. -/
theorem spend
    {stage : Stage}
    (hBudgeted : w.Budgeted)
    (hStage : w.stage = .starting now)
    (hNext : ∀ now, stage ≠ .starting now) :
    ((w.spend now).at stage).Budgeted := by
  have hInstant : w.instant = now := by
    unfold instant
    rw [hStage]
  have hLast : ((w.spend now).at stage).instant = w.clock := by
    unfold instant Watcher.at
    cases stage with
    | starting now => exact absurd rfl (hNext now)
    | _ => rfl
  have hPast := hBudgeted.past
  have hClock := hBudgeted.instant_le
  have hStands := hBudgeted.stands
  rw [hInstant] at hPast hClock hStands
  constructor
  case instant_le => exact Nat.le_of_eq hLast
  case suffix =>
    rcases hBudgeted.suffix with ⟨front, hEq⟩
    refine ⟨front, ?_⟩
    change front ++ (w.budget.spent ++ [now]) = w.spends ++ [now]
    rw [← List.append_assoc, hEq]
  case sorted =>
    apply List.pairwise_append.mpr
    refine ⟨hBudgeted.sorted, List.pairwise_singleton _ _, ?_⟩
    intro t hMem u hLast
    rw [List.mem_singleton.mp hLast]
    exact hPast t hMem
  case past =>
    rw [hLast]
    intro t hMem
    rcases List.mem_append.mp hMem with hOld | hNew
    · exact Nat.le_trans (hPast t hOld) hClock
    · rw [List.mem_singleton.mp hNew]
      exact hClock
  case stands =>
    rw [hLast]
    exact hStands.snoc.mono hClock
  case admitted =>
    exact hBudgeted.admitted.snoc (hBudgeted.room now hStage)
  case room =>
    exact fun now hStarting => absurd hStarting (hNext now)

/- Each step keeps the invariant. -/
theorem next
    (hBudgeted : w.Budgeted)
    (hStep : w.next e = some v) :
    v.Budgeted := by
  unfold Watcher.next at hStep
  split at hStep
  case h_1 d =>
    cases hStep
    refine hBudgeted.same rfl rfl ?_ ?_ (fun _ _ => rfl)
    · unfold instant
      cases w.stage with
      | starting now => exact Nat.le_refl _
      | _ => exact Nat.le_add_right _ _
    · have hLe := hBudgeted.instant_le
      unfold instant at hLe ⊢
      cases hStage : w.stage <;>
        simp only [hStage] at hLe ⊢ <;> omega
  case h_2 =>
    cases hStep
    exact hBudgeted.same rfl rfl (Nat.le_refl _)
      hBudgeted.instant_le (fun _ _ => rfl)
  case h_3 hStage =>
    cases hStep
    cases w.stop <;>
      exact hBudgeted.same rfl rfl hBudgeted.instant_le
        (Nat.le_refl _) (fun _ h => by cases h)
  case h_4 hStage =>
    cases hStep
    exact hBudgeted.turn hStage
  case h_5 outcome now hStage =>
    cases hStep
    cases outcome with
    | spawned =>
        exact hBudgeted.spend hStage (fun _ h => by cases h)
    | reused =>
        exact hBudgeted.same rfl rfl hBudgeted.instant_le
          (Nat.le_refl _) (fun _ h => by cases h)
    | failed =>
        exact hBudgeted.spend hStage (fun _ h => by cases h)
  case h_6 wake hStage =>
    split at hStep
    · cases hStep
      exact hBudgeted.same rfl rfl hBudgeted.instant_le
        (Nat.le_refl _) (fun _ h => by cases h)
    · cases hStep
  case h_7 => cases hStep

/- And so it holds in each reachable state. -/
theorem of_reachable
    (hReach : machine.Reachable w) :
    w.Budgeted := by
  rcases hReach with ⟨w₀, es, hStart, hRun⟩
  apply hRun.invariant
  · intro w e v hBudgeted hStep
    exact hBudgeted.next hStep
  · have hStart : w₀ = .start := hStart
    rw [hStart]
    refine ⟨Nat.le_refl _, List.suffix_refl _, List.Pairwise.nil,
      ?_, fun _ _ => rfl, .nil, ?_⟩
    · intro t hMem
      cases hMem
    · intro now hStarting
      cases hStarting

end Budgeted

------------------------------------------------------------
-- Bounded Restarts
------------------------------------------------------------

/- The spends in a closed interval of time. -/
def spendsWithin (w : Watcher) (first last : Nat) : List Nat :=
  w.spends.filter (fun t => first ≤ t ∧ t ≤ last)

/-
  Every closed window has few spends, a refused check has all
  of them in its own, and the record is ordered, so that the
  spends popped from its front are those that have expired.
-/
structure RestartsBounded (w : Watcher) : Prop where
  windows :
    ∀ first,
      (w.spendsWithin first (first + restartWindow)).length ≤
        restartLimit
  refused :
    ∀ v wake, machine.step w .turn v →
      v.stage = .sleeping wake →
        (w.spendsWithin (w.clock - restartWindow)
          w.clock).length = restartLimit
  ordered : w.budget.spent.Pairwise (· ≤ ·)
  popped :
    ∀ now,
      (w.budget.available now).2.spent =
        w.budget.spent.filter (fun t =>
          now ≤ t + restartWindow)

/- The window keeps what is not too old. -/
theorem live_eq_filter
    {ts : List Nat} :
    window.live now ts =
      ts.filter (fun t => now ≤ t + restartWindow) := by
  apply List.filter_congr
  intro t _
  apply Bool.eq_iff_iff.mpr
  change (!expired now t) = true ↔ _
  unfold expired
  simp only [Bool.not_eq_true', decide_eq_false_iff_not,
    decide_eq_true_eq]
  omega

/- Two spends of one closed window have not expired there. -/
theorem length_spendsWithin_le
    (hBudgeted : w.Budgeted)
    {first last : Nat}
    (hWindow : last ≤ first + restartWindow) :
    (w.spendsWithin first last).length ≤ restartLimit := by
  apply hBudgeted.admitted.length_filter_le
  intro t u hFirst hSecond
  simp only [Bool.decide_and, Bool.and_eq_true,
    decide_eq_true_eq] at hFirst hSecond
  change expired u t = false
  unfold expired
  simp only [decide_eq_false_iff_not]
  omega

/- At a refusal, the window that ends there is full. -/
theorem full_of_refused
    {wake : Nat}
    (hBudgeted : w.Budgeted)
    (hStep : machine.step w .turn v)
    (hRefused : v.stage = .sleeping wake) :
    restartLimit ≤ (window.live w.clock w.spends).length := by
  have hNext : w.next .turn = some v := hStep
  cases hStage : w.stage with
  | checking =>
      simp only [Watcher.next, hStage] at hNext
      cases hNext
      unfold Watcher.turn at hRefused
      split at hRefused
      · cases hRefused
      · dsimp only at hRefused
        split at hRefused
        · cases hRefused
        · rename_i hNot
          rw [hBudgeted.available_iff hBudgeted.instant_le,
            Nat.not_lt] at hNot
          exact hNot
  | waiting | starting | sleeping | ended =>
      simp only [Watcher.next, hStage, reduceCtorEq] at hNext

/- No window has more restarts than are allowed. -/
theorem restarts_bounded
    (hReach : machine.Reachable w) :
    w.RestartsBounded := by
  have hBudgeted := Budgeted.of_reachable hReach
  constructor
  case windows =>
    intro first
    exact length_spendsWithin_le hBudgeted (Nat.le_refl _)
  case refused =>
    intro v wake hStep hRefused
    have hFull := full_of_refused hBudgeted hStep hRefused
    have hWithin :
        window.live w.clock w.spends =
          w.spendsWithin (w.clock - restartWindow) w.clock := by
      rw [live_eq_filter]
      apply List.filter_congr
      intro t hMem
      have hPast :=
        Nat.le_trans (hBudgeted.past t hMem)
          hBudgeted.instant_le
      apply Bool.eq_iff_iff.mpr
      simp only [decide_eq_true_eq]
      omega
    rw [hWithin] at hFull
    exact Nat.le_antisymm
      (length_spendsWithin_le hBudgeted (by omega)) hFull
  case ordered => exact hBudgeted.sorted_spent
  case popped =>
    intro now
    rw [hBudgeted.spent_available now]
    exact live_eq_filter

/- Three starts fail at once, and the fourth is refused. -/
theorem restarts_bounded_refused :
    ∃ w v wake,
      machine.Run .start
        [.exited, .turn, .outcome .failed, .tick reusePoll,
          .wake, .turn, .outcome .spawned, .exited, .turn,
          .outcome .failed, .tick reusePoll, .wake] w ∧
        machine.step w .turn v ∧ v.stage = .sleeping wake ∧
          w.RestartsBounded := by
  have hRun :
      machine.Run .start
        [.exited, .turn, .outcome .failed, .tick reusePoll,
          .wake, .turn, .outcome .spawned, .exited, .turn,
          .outcome .failed, .tick reusePoll, .wake]
        { budget :=
            { spent := [0, reusePoll, reusePoll] }
          stop := false
          stage := .checking
          clock := 2 * reusePoll
          spends := [0, reusePoll, reusePoll] } :=
    Machine.Run.of_foldlM rfl
  exact ⟨_, _, _, hRun, rfl, rfl,
    restarts_bounded ⟨.start, _, rfl, hRun⟩⟩

end Watcher

end Restart

end Store

end Ferrex
