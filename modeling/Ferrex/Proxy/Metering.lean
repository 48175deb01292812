import Mathlib.Algebra.BigOperators.Group.List.Basic
import Mathlib.Algebra.Order.BigOperators.Group.List
import Ferrex.Proxy.Budget

/-
  The budget of stdout: its permits are free, with the pump,
  or with lines that are not yet written, and none is lost
  when a pump is aborted.  So the metered lines stay within
  it, up to a single longer one, and a pump that is parked
  goes on once they are written.

  Main declarations:
    * `Output.Accounted`, `Accounted.of_reachable`
    * `BudgetKept`, `stdout_budget_kept`
-/

------------------------------------------------------------
-- Permits in Use
------------------------------------------------------------

namespace Ferrex

namespace Proxy

namespace Budget

/- The permits that the pump has in its hand. -/
def Pump.credit : Pump → Nat
| .taking credit => credit
| .show _ credit => credit
| .send _ credit => credit
| _ => 0

/- The permits that the line in the held slot is worth. -/
def Pump.share : Pump → Option Nat
| .trying c => some c
| .starting c => some c
| .announcing c => some c
| .requesting c => some c
| .parked c => some c
| .taking c => some c
| _ => none

/- The line that the pump has taken out of the slot. -/
def Pump.inHand : Pump → Option (Bytes × Nat)
| .show line credit => some (line, credit)
| .send line credit => some (line, credit)
| _ => none

/- The permits that its acquire waits for. -/
def Pump.awaits : Pump → Option Nat
| .parked c => some c
| _ => none

/- A metered line with its share. -/
def Carries (line : Bytes) (credit : Nat) : Prop :=
  line ≠ [] ∧ credit = cost line

def Out.metered : Out → Option Bytes
| .line bytes (some _) => some bytes
| _ => none

namespace Output

/- What is queued, with what is being written. -/
def outs (s : Output) : List Out :=
  s.writing.toList ++ s.queue

def queuedPermits (s : Output) : Nat :=
  (s.outs.map Out.credit).sum

/- The permits of the pump, with those of its acquire. -/
def pumpPermits (s : Output) : Nat :=
  s.permits.got + s.pump.credit

def metered (s : Output) : List Bytes :=
  s.outs.filterMap Out.metered

/- The pump is parked, and its acquire is not complete. -/
def Waits (s : Output) : Prop :=
  s.pump.awaits.isSome = true ∧ s.permits.Lacks

variable {s t u : Output} {e : Event}

/-
  All permits are accounted for: the acquire of a parked pump
  is the only one, and every line carries its own share.
-/
structure Accounted (s : Output) : Prop where
  conserved :
    s.permits.total + s.pump.credit + s.queuedPermits =
      stdoutBudget
  waits :
    s.permits.waiter.map Waiter.needed = s.pump.awaits
  held :
    ∀ c, s.pump.share = some c →
      ∃ line, s.held = some line ∧ Carries line c
  hand :
    ∀ line c, s.pump.inHand = some (line, c) → Carries line c
  queued :
    ∀ line c, Out.line line (some c) ∈ s.outs → Carries line c

theorem waiter_of_awaits
    (hAccounted : s.Accounted)
    (hAwaits : s.pump.awaits = none) :
    s.permits.waiter = none := by
  have hWaits := hAccounted.waits
  rw [hAwaits] at hWaits
  exact Option.map_eq_none_iff.mp hWaits

theorem queuedPermits_push
    {out : Out} :
    (s.push out).queuedPermits =
      s.queuedPermits + out.credit := by
  unfold queuedPermits outs push
  rw [← List.append_assoc, List.map_append, List.sum_append]
  simp

@[simp] theorem outs_pumping
    {pump : Pump} :
    (s.pumping pump).outs = s.outs :=
  rfl

@[simp] theorem queuedPermits_pumping
    {pump : Pump} :
    (s.pumping pump).queuedPermits = s.queuedPermits :=
  rfl

theorem mem_outs_push
    {out o : Out} :
    o ∈ (s.push out).outs ↔ o ∈ s.outs ∨ o = out := by
  unfold outs push
  rw [← List.append_assoc, List.mem_append,
    List.mem_singleton]

namespace Accounted

/- What leaves the permits and the lines alone. -/
theorem same
    (hAccounted : s.Accounted)
    (hPermits : t.permits = s.permits)
    (hOuts : t.outs = s.outs)
    (hCredit : t.pump.credit = s.pump.credit)
    (hAwaits : t.pump.awaits = s.pump.awaits)
    (hHeld :
      ∀ c, t.pump.share = some c →
        s.pump.share = some c ∧ t.held = s.held)
    (hHand : t.pump.inHand = s.pump.inHand) :
    t.Accounted where
  conserved := by
    unfold queuedPermits
    rw [hPermits, hOuts, hCredit]
    exact hAccounted.conserved
  waits := by
    rw [hPermits, hAwaits]
    exact hAccounted.waits
  held := by
    intro c hShare
    rcases hHeld c hShare with ⟨hOld, hSame⟩
    rw [hSame]
    exact hAccounted.held c hOld
  hand := by
    rw [hHand]
    exact hAccounted.hand
  queued := by
    rw [hOuts]
    exact hAccounted.queued

theorem turn
    {pump : Pump}
    (hAccounted : s.Accounted)
    (hTurn : Turn s e pump) :
    (s.pumping pump).Accounted := by
  refine hAccounted.same (t := s.pumping pump) rfl rfl ?_ ?_ ?_ ?_
  · cases hTurn <;> simp [pumping, Pump.credit, *]
  · cases hTurn <;> simp [pumping, Pump.awaits, *]
  · intro c hShare
    cases hTurn <;> simp_all [pumping, Pump.share]
  · cases hTurn <;> simp [pumping, Pump.inHand, *]

/- The pump takes, parks for, or gives back its permits. -/
theorem shared
    {c : Nat}
    {permits : Semaphore}
    (hAccounted : s.Accounted)
    (hShare : s.pump.share = some c)
    (hPermits : t.permits = permits)
    (hOuts : t.outs = s.outs)
    (hHeld : t.held = s.held)
    (hTotal :
      permits.total + t.pump.credit =
        s.permits.total + s.pump.credit)
    (hAwaits :
      permits.waiter.map Waiter.needed = t.pump.awaits)
    (hNext :
      ∀ c', t.pump.share = some c' → c' = c)
    (hHand : t.pump.inHand = none) :
    t.Accounted where
  conserved := by
    unfold queuedPermits
    rw [hPermits, hOuts, hTotal]
    exact hAccounted.conserved
  waits := by
    rw [hPermits]
    exact hAwaits
  held := by
    intro c' hShare'
    rw [hNext c' hShare', hHeld]
    exact hAccounted.held c hShare
  hand := by
    intro line c' hLine
    rw [hHand] at hLine
    cases hLine
  queued := by
    rw [hOuts]
    exact hAccounted.queued

/- A line without permits is queued. -/
theorem push
    {out : Out}
    (hAccounted : s.Accounted)
    (hOut : out.credit = 0)
    (hFree : ∀ line c, out ≠ .line line (some c)) :
    (s.push out).Accounted where
  conserved := by
    rw [queuedPermits_push, hOut, Nat.add_zero]
    exact hAccounted.conserved
  waits := hAccounted.waits
  held := hAccounted.held
  hand := hAccounted.hand
  queued := by
    intro line c hMem
    rw [mem_outs_push] at hMem
    rcases hMem with hMem | hMem
    · exact hAccounted.queued line c hMem
    · exact absurd hMem.symm (hFree line c)

/- A line is read, and its share is still to be taken. -/
theorem read
    {line : Bytes}
    (hAccounted : s.Accounted)
    (hPump : s.pump = .reading)
    (hLine : line.getLast? = some newline) :
    Accounted
      { s with held := some line, pump := .trying (cost line) }
      := by
  have hOld : s.permits.waiter = none :=
    waiter_of_awaits hAccounted (by rw [hPump]; rfl)
  have hConserved := hAccounted.conserved
  rw [hPump] at hConserved
  refine ⟨hConserved, ?_, ?_, ?_, hAccounted.queued⟩
  · dsimp only
    rw [hOld]
    rfl
  · intro c hShare
    cases hShare
    refine ⟨line, rfl, ?_, rfl⟩
    intro hNil
    rw [hNil] at hLine
    cases hLine
  · intro line' c hHand
    cases hHand

/- The line that is taken out of the slot keeps its share. -/
theorem taken
    {line : Bytes} {credit : Nat}
    (hAccounted : s.Accounted)
    (hPump : s.pump = .taking credit)
    (hHeld : s.held = some line) :
    Accounted
      { s with held := none, pump := .show line credit } := by
  rcases hAccounted.held credit (by rw [hPump]; rfl) with
    ⟨line', hSame, hCarries⟩
  rw [hHeld] at hSame
  cases hSame
  have hConserved := hAccounted.conserved
  have hWaits := hAccounted.waits
  rw [hPump] at hConserved hWaits
  refine ⟨hConserved, hWaits, ?_, ?_, hAccounted.queued⟩
  · intro c hShare
    cases hShare
  · intro line' c hHand
    cases hHand
    exact hCarries

/- The permits in the pump's hand go with its line. -/
theorem sent
    {line : Bytes} {credit : Nat}
    (hAccounted : s.Accounted)
    (hPump : s.pump = .send line credit) :
    ((s.push (.line line (some credit))).pumping
      .check).Accounted := by
  have hConserved := hAccounted.conserved
  have hWaits := hAccounted.waits
  rw [hPump] at hConserved hWaits
  refine ⟨?_, hWaits, ?_, ?_, ?_⟩
  · rw [queuedPermits_pumping, queuedPermits_push]
    dsimp only [Output.pumping, Output.push, Pump.credit,
      Out.credit] at hConserved ⊢
    omega
  · intro c hShare
    cases hShare
  · intro line' c hHand
    cases hHand
  · intro line' c hMem
    rw [outs_pumping, mem_outs_push] at hMem
    rcases hMem with hMem | hMem
    · exact hAccounted.queued line' c hMem
    · cases hMem
      exact hAccounted.hand line credit (by rw [hPump]; rfl)

/- The line of an aborted pump is queued without permits. -/
theorem lost
    {line : Bytes}
    (hAccounted : s.Accounted)
    (hPump : s.pump = .joined) :
    (({ s with held := none }.push
      (.line line none)).pumping .stopped).Accounted := by
  have hPush : (s.push (.line line none)).Accounted :=
    hAccounted.push rfl (fun _ _ h => by cases h)
  have hConserved := hPush.conserved
  have hWaits := hPush.waits
  have hOld : (s.push (.line line none)).pump = .joined :=
    hPump
  rw [hOld] at hConserved hWaits
  refine ⟨hConserved, hWaits, ?_, ?_, hPush.queued⟩
  · intro c hShare
    cases hShare
  · intro line' c hHand
    cases hHand

/- The permits of a line that is written are free again. -/
theorem wrote
    {out : Out} {permits : Semaphore}
    (hAccounted : s.Accounted)
    (hWriting : s.writing = some out)
    (hTotal :
      permits.total = s.permits.total + out.credit)
    (hWaiter :
      permits.waiter.map Waiter.needed =
        s.permits.waiter.map Waiter.needed) :
    Accounted
      { s with writing := none, permits := permits } := by
  have hOuts : s.outs = out :: s.queue := by
    unfold outs
    rw [hWriting]
    rfl
  refine ⟨?_, hWaiter.trans hAccounted.waits, hAccounted.held,
    hAccounted.hand, ?_⟩
  · have hConserved := hAccounted.conserved
    unfold queuedPermits at hConserved
    rw [hOuts, List.map_cons, List.sum_cons] at hConserved
    change
      permits.total + s.pump.credit +
        (s.queue.map Out.credit).sum = stdoutBudget
    omega
  · intro line c hMem
    apply hAccounted.queued
    rw [hOuts]
    exact List.mem_cons_of_mem _ hMem

theorem step
    (hAccounted : s.Accounted)
    (hMove : Move s e t) :
    t.Accounted := by
  cases hMove with
  | turn e pump hTurn => exact hAccounted.turn hTurn
  | read line hPump hLine => exact hAccounted.read hPump hLine
  | acquired c permits hPump hFree =>
      have hTaken := Semaphore.tryAcquire_eq_some hFree
      have hOld : s.permits.waiter = none :=
        waiter_of_awaits hAccounted (by rw [hPump]; rfl)
      refine hAccounted.shared (c := c) (by rw [hPump]; rfl) rfl
        rfl rfl ?_ ?_ ?_ rfl
      · rw [hPump]
        exact hTaken.1
      · rw [hTaken.2, hOld]
        rfl
      · intro c' hShare
        exact (Option.some.inj hShare).symm
  | began c hPump | announced c hPump =>
      refine hAccounted.shared (c := c) (by rw [hPump]; rfl) rfl
        rfl rfl ?_ ?_ ?_ rfl
      · rw [hPump]
        rfl
      · have hOld := hAccounted.waits
        rw [hPump] at hOld
        exact hOld
      · intro c' hShare
        exact (Option.some.inj hShare).symm
  | requested c permits hPump hQueued =>
      rcases Semaphore.enqueue_eq_some hQueued with
        ⟨hTotal, w, hWaiter, hNeeded⟩
      refine hAccounted.shared (c := c) (by rw [hPump]; rfl) rfl
        rfl rfl ?_ ?_ ?_ rfl
      · rw [hPump, hTotal]
        rfl
      · rw [hWaiter, Option.map_some, hNeeded]
        rfl
      · intro c' hShare
        exact (Option.some.inj hShare).symm
  | resumed c n permits hPump hTaken =>
      rcases Semaphore.take_eq_some hTaken with
        ⟨hTotal, hNone, w, hWaiter, hNeeded⟩
      have hCost : n = c := by
        have hOld := hAccounted.waits
        rw [hPump, hWaiter, Option.map_some, hNeeded] at hOld
        exact Option.some.inj hOld
      refine hAccounted.shared (c := c) (by rw [hPump]; rfl) rfl
        rfl rfl ?_ ?_ ?_ rfl
      · rw [hPump]
        exact hTotal
      · rw [hNone]
        rfl
      · intro c' hShare
        rw [← hCost]
        exact (Option.some.inj hShare).symm
  | taken line credit hPump hHeld =>
      exact hAccounted.taken hPump hHeld
  | dropped credit hPump hHeld =>
      rcases hAccounted.held credit (by rw [hPump]; rfl) with
        ⟨line, hSame, -⟩
      rw [hHeld] at hSame
      cases hSame
  | sent line credit hPump => exact hAccounted.sent hPump
  | withdrawn c hPump =>
      refine hAccounted.shared (c := c) (by rw [hPump]; rfl) rfl
        rfl rfl ?_ ?_ ?_ rfl
      · rw [hPump]
        rfl
      · have hOld := hAccounted.waits
        rw [hPump] at hOld
        exact hOld
      · intro c' hShare
        cases hShare
  | cancelled c hPump =>
      -- The acquire hands back what it has got.
      refine hAccounted.shared (c := c) (by rw [hPump]; rfl) rfl
        rfl rfl ?_ rfl ?_ rfl
      · rw [hPump]
        rfl
      · intro c' hShare
        cases hShare
  | lost line hPump hHeld => exact hAccounted.lost hPump
  | queued line | exiting code =>
      apply hAccounted.push rfl
      intro line' c hEq
      cases hEq
  | received out queue hWriting hQueue =>
      refine hAccounted.same rfl ?_ rfl rfl
        (fun c hShare => ⟨hShare, rfl⟩) rfl
      unfold outs
      rw [hWriting, hQueue]
      rfl
  | wrote line credit hWriting =>
      apply hAccounted.wrote hWriting
      · exact Semaphore.total_release
      · exact Semaphore.needed_release
  | wroteFree out hWriting hFree =>
      apply hAccounted.wrote hWriting _ rfl
      rw [hFree]
      rfl
  | exits _ _ | passes _ | watch _ _ _ _ =>
      exact hAccounted.same rfl rfl rfl rfl
        (fun c hShare => ⟨hShare, rfl⟩) rfl

theorem of_reachable
    (hReach : machine.Reachable s) :
    s.Accounted := by
  refine invariant_of_reachable ?_
    (fun _ _ _ hAccounted hMove => hAccounted.step hMove) hReach
  refine ⟨rfl, rfl, ?_, ?_, ?_⟩
  · intro c hShare
    cases hShare
  · intro line c hHand
    cases hHand
  · intro line c hMem
    cases hMem

end Accounted

------------------------------------------------------------
-- Metered Lines
------------------------------------------------------------

theorem cost_le
    {line : Bytes} :
    cost line ≤ stdoutBudget := by
  rw [cost_eq]
  exact Nat.min_le_right _ _

theorem cost_pos
    {line : Bytes}
    (hLine : line ≠ []) :
    0 < cost line := by
  rw [cost_eq]
  have hLength := List.length_pos_iff.mpr hLine
  have hBudget : 0 < stdoutBudget := by decide
  omega

/- The permits of the queue are the shares of its lines. -/
theorem sum_credit_eq
    {outs : List Out}
    (hCarries :
      ∀ line c, Out.line line (some c) ∈ outs →
        Carries line c) :
    (outs.map Out.credit).sum =
      ((outs.filterMap Out.metered).map cost).sum := by
  induction outs with
  | nil => rfl
  | cons out outs ih =>
      have hRest := ih (fun line c hMem =>
        hCarries line c (List.mem_cons_of_mem _ hMem))
      rw [List.map_cons, List.sum_cons, hRest]
      cases out with
      | exit code =>
          rw [List.filterMap_cons_none rfl]
          exact Nat.zero_add _
      | line line credit =>
          cases credit with
          | none =>
              rw [List.filterMap_cons_none rfl]
              exact Nat.zero_add _
          | some c =>
              have hHead := hCarries line c List.mem_cons_self
              have hMetered :
                  Out.metered (.line line (some c)) = some line :=
                rfl
              rw [List.filterMap_cons_some hMetered,
                List.map_cons, List.sum_cons, ← hHead.2]
              rfl

/-
  Lines whose shares fit into the budget fit themselves,
  unless there is a single one that is longer.
-/
theorem length_bounded
    {lines : List Bytes}
    (hLines : ∀ line ∈ lines, line ≠ [])
    (hSum : (lines.map cost).sum ≤ stdoutBudget) :
    (lines.map List.length).sum ≤ stdoutBudget ∨
      ∃ line, lines = [line] ∧ stdoutBudget < line.length := by
  by_cases hLong : ∃ line ∈ lines, stdoutBudget < line.length
  · rcases hLong with ⟨line, hMem, hLonger⟩
    apply Or.inr
    have hAll : cost line = stdoutBudget := by
      rw [cost_eq]
      exact Nat.min_eq_right (Nat.le_of_lt hLonger)
    have hPositive :
        ∀ xs : List Bytes, (∀ line ∈ xs, line ∈ lines) →
          (xs.map cost).sum = 0 → xs = [] := by
      intro xs hSub hZero
      cases xs with
      | nil => rfl
      | cons x xs =>
          have hPos :=
            cost_pos (hLines x (hSub x List.mem_cons_self))
          rw [List.map_cons, List.sum_cons] at hZero
          omega
    rcases List.append_of_mem hMem with ⟨front, back, hSplit⟩
    rw [hSplit, List.map_append, List.map_cons, List.sum_append,
      List.sum_cons, hAll] at hSum
    have hFront : front = [] := by
      apply hPositive
      · intro x hx
        rw [hSplit]
        exact List.mem_append_left _ hx
      · omega
    have hBack : back = [] := by
      apply hPositive
      · intro x hx
        rw [hSplit]
        exact List.mem_append_right _ (List.mem_cons_of_mem _ hx)
      · omega
    refine ⟨line, ?_, hLonger⟩
    rw [hSplit, hFront, hBack]
    rfl
  · apply Or.inl
    have hSame : lines.map cost = lines.map List.length := by
      apply List.map_congr_left
      intro line hMem
      rw [cost_eq]
      apply Nat.min_eq_left
      exact Nat.le_of_not_lt (fun h => hLong ⟨line, hMem, h⟩)
    rw [← hSame]
    exact hSum

namespace Accounted

theorem queuedPermits_eq
    (hAccounted : s.Accounted) :
    s.queuedPermits = (s.metered.map cost).sum :=
  sum_credit_eq hAccounted.queued

theorem ne_nil_of_metered
    {line : Bytes}
    (hAccounted : s.Accounted)
    (hMem : line ∈ s.metered) :
    line ≠ [] := by
  rcases List.mem_filterMap.mp hMem with ⟨out, hOut, hLine⟩
  cases out with
  | exit code => cases hLine
  | line bytes credit =>
      cases credit with
      | none => cases hLine
      | some c =>
          cases hLine
          exact (hAccounted.queued line c hOut).1

/- A pump that waits is not alone with the whole budget. -/
theorem metered_of_waits
    (hAccounted : s.Accounted)
    (hWaits : s.Waits) :
    s.metered ≠ [] := by
  intro hNil
  have hQueued := hAccounted.queuedPermits_eq
  rw [hNil] at hQueued
  rcases Option.isSome_iff_exists.mp hWaits.1 with ⟨c, hAwaits⟩
  have hPump : s.pump = .parked c := by
    unfold Pump.awaits at hAwaits
    split at hAwaits
    · cases hAwaits
      assumption
    · cases hAwaits
  have hOld := hAccounted.waits
  rw [hAwaits] at hOld
  rcases Option.map_eq_some_iff.mp hOld with
    ⟨w, hWaiter, hNeeded⟩
  have hLess := Semaphore.total_lt_of_lacks hWaiter hWaits.2
  rcases hAccounted.held c (by rw [hPump]; rfl) with
    ⟨line, -, hCarries⟩
  have hConserved := hAccounted.conserved
  have hCost : cost line ≤ stdoutBudget := cost_le
  have hCredit : s.pump.credit = 0 := by
    rw [hPump]
    rfl
  rw [hQueued, hCredit] at hConserved
  rw [hNeeded, hCarries.2] at hLess
  simp only [List.map_nil, List.sum_nil] at hConserved
  omega

end Accounted

------------------------------------------------------------
-- Draining the Queue
------------------------------------------------------------

/- The steps of the writer thread that write the queue. -/
def Writes (e : Event) : Prop :=
  e = .recv ∨ e = .wrote

/- The steps that are left until the queue is written. -/
def unwritten (s : Output) : Nat :=
  2 * s.queue.length + s.writing.toList.length

/- While something is queued the writer thread goes on. -/
theorem writer_step
    (hRunning : s.exited = false)
    (hOuts : s.outs ≠ []) :
    ∃ e t, Writes e ∧ machine.step s e t ∧
      (t.exited = true ∨
        (t.exited = false ∧ t.pump = s.pump ∧
          t.unwritten < s.unwritten)) := by
  have hNext :
      ∀ e t, Writes e → s.writerNext e = some t →
        machine.step s e t := by
    intro e t hWrites hWriter
    have hOpen : ¬ s.exited = true := by
      rw [hRunning]
      decide
    rcases hWrites with hEvent | hEvent <;> subst hEvent <;>
      exact (if_neg hOpen).trans hWriter
  cases hWriting : s.writing with
  | some out =>
      have hWrote :
          ∃ t, s.writerNext .wrote = some t ∧ t.writing = none ∧
            t.queue = s.queue ∧ t.pump = s.pump ∧
            t.exited = s.exited := by
        simp only [writerNext, hWriting]
        split
        · exact ⟨_, rfl, rfl, rfl, rfl, rfl⟩
        · exact ⟨_, rfl, rfl, rfl, rfl, rfl⟩
        · contradiction
      rcases hWrote with ⟨t, hStep, hNone, hQueue, hPump, hExit⟩
      refine ⟨.wrote, t, Or.inr rfl, hNext _ _ (Or.inr rfl) hStep,
        Or.inr ⟨hExit.trans hRunning, hPump, ?_⟩⟩
      unfold unwritten
      rw [hNone, hQueue, hWriting]
      simp
  | none =>
      cases hQueue : s.queue with
      | nil =>
          unfold outs at hOuts
          rw [hWriting, hQueue] at hOuts
          exact absurd rfl hOuts
      | cons out queue =>
          cases out with
          | exit code =>
              have hStep :
                  s.writerNext .recv =
                    some { s with exited := true } := by
                simp only [writerNext, hWriting, hQueue]
              exact ⟨.recv, _, Or.inl rfl,
                hNext _ _ (Or.inl rfl) hStep, Or.inl rfl⟩
          | line line credit =>
              have hStep :
                  s.writerNext .recv =
                    some
                      { s with
                        writing := some (.line line credit)
                        queue := queue } := by
                simp only [writerNext, hWriting, hQueue]
              refine ⟨.recv, _, Or.inl rfl,
                hNext _ _ (Or.inl rfl) hStep,
                Or.inr ⟨hRunning, rfl, ?_⟩⟩
              unfold unwritten
              rw [hWriting, hQueue, List.length_cons]
              dsimp only [Option.toList, List.length]
              omega

/-
  A pump that is parked takes its permits once enough lines
  are written, unless the writer thread comes to an exit.
-/
theorem goes_on
    {c : Nat}
    (hReach : machine.Reachable s)
    (hRunning : s.exited = false)
    (hPump : s.pump = .parked c) :
    ∃ es t, (∀ e ∈ es, Writes e) ∧ machine.Run s es t ∧
      (t.exited = true ∨
        ∃ u, machine.step t .pump u ∧ u.pump = .taking c) := by
  induction hSize : s.unwritten using Nat.strong_induction_on
    generalizing s with
  | _ n ih =>
      have hAccounted := Accounted.of_reachable hReach
      have hOld := hAccounted.waits
      rw [hPump] at hOld
      rcases Option.map_eq_some_iff.mp hOld with
        ⟨w, hWaiter, hNeeded⟩
      by_cases hLacks : s.permits.Lacks
      · have hWaits : s.Waits := by
          refine ⟨?_, hLacks⟩
          rw [hPump]
          rfl
        have hOuts : s.outs ≠ [] := by
          intro hNil
          apply hAccounted.metered_of_waits hWaits
          unfold metered
          rw [hNil]
          rfl
        rcases writer_step hRunning hOuts with
          ⟨e, t, hWrites, hStep, hExit | ⟨hGoing, hSame, hLess⟩⟩
        · refine ⟨[e], t, ?_, .single hStep, Or.inl hExit⟩
          intro e' hMem
          rw [List.mem_singleton.mp hMem]
          exact hWrites
        · rcases hReach with ⟨s₀, es₀, hInitial, hRun⟩
          have hNext : machine.Reachable t :=
            ⟨s₀, _, hInitial, hRun.snoc hStep⟩
          rcases ih t.unwritten (hSize ▸ hLess) hNext hGoing
            (hSame.trans hPump) rfl with
            ⟨es, u, hAll, hRest, hDone⟩
          refine ⟨e :: es, u, ?_, .cons hStep hRest, hDone⟩
          intro e' hMem
          rcases List.mem_cons.mp hMem with hMem | hMem
          · rw [hMem]
            exact hWrites
          · exact hAll e' hMem
      · have hTaken := Semaphore.take_isSome hWaiter hLacks
        have hOpen : ¬ s.exited = true := by
          rw [hRunning]
          decide
        have hStep :
            s.pumpNext =
              some
                { s.endPark with
                  permits := .new s.permits.permits
                  pump := .taking w.needed } := by
          unfold pumpNext
          rw [hPump, hTaken]
          rfl
        refine ⟨[], s, by simp, .nil,
          Or.inr ⟨_, (if_neg hOpen).trans hStep, ?_⟩⟩
        rw [← hNeeded]

/-
  The accounting of the budget.  A pump that was aborted has
  no permits left, also where it was parked.
-/
structure BudgetKept (s : Output) : Prop where
  conserved :
    s.permits.permits + s.queuedPermits + s.pumpPermits =
      stdoutBudget
  bounded :
    (s.metered.map List.length).sum ≤ stdoutBudget ∨
      ∃ line, s.metered = [line] ∧ stdoutBudget < line.length
  parked : s.Waits → s.metered ≠ []
  drains :
    ∀ c, s.pump = .parked c → s.exited = false →
      ∃ es t, (∀ e ∈ es, Writes e) ∧ machine.Run s es t ∧
        (t.exited = true ∨
          ∃ u, machine.step t .pump u ∧ u.pump = .taking c)
  aborted :
    s.pump = .joined →
      s.permits.permits + s.queuedPermits = stdoutBudget

theorem stdout_budget_kept
    (hReach : machine.Reachable s) :
    s.BudgetKept := by
  have hAccounted := Accounted.of_reachable hReach
  have hConserved := hAccounted.conserved
  have hTotal : s.permits.total = s.permits.permits + s.permits.got :=
    rfl
  constructor
  case conserved =>
    unfold pumpPermits
    omega
  case bounded =>
    apply length_bounded
    · exact fun line hMem => hAccounted.ne_nil_of_metered hMem
    · rw [← hAccounted.queuedPermits_eq]
      omega
  case parked => exact hAccounted.metered_of_waits
  case drains =>
    intro c hPump hRunning
    exact goes_on hReach hRunning hPump
  case aborted =>
    intro hPump
    have hNone : s.permits.waiter = none :=
      waiter_of_awaits hAccounted (by rw [hPump]; rfl)
    rw [Semaphore.total_of_none hNone, hPump] at hConserved
    simp only [Pump.credit] at hConserved
    omega

theorem stdout_budget_kept_parked :
    parkedBehind.Waits ∧ parkedBehind.BudgetKept :=
  ⟨⟨rfl, _, rfl, by decide⟩,
    stdout_budget_kept reachable_parkedBehind⟩

end Output

end Budget

end Proxy

end Ferrex
