import Ferrex.Daemon.Serve

/-
  Idle accounting: the counters of the timer and the events
  still to be received always add up to the connections that
  are in their hello and in a session.

  Main declarations:
    * `Serve.counts`
    * `Counted`, `Counted.next`
    * `Probed`, `Probed.next`
    * `idle_accounting`
-/

------------------------------------------------------------
-- Real Numbers of Connections
------------------------------------------------------------

namespace Ferrex

namespace Daemon

/- Replacing an element moves it from count to count. -/
private theorem countP_set_add
    {α : Type} {l : List α} {n : Nat} {a : α}
    (p : α → Bool)
    (b : α)
    (h : l[n]? = some a) :
    (l.set n b).countP p + (if p a then 1 else 0) =
      l.countP p + (if p b then 1 else 0) := by
  induction l generalizing n with
  | nil => simp at h
  | cons x xs ih =>
      cases n with
      | zero =>
          cases h
          rw [List.set_cons_zero, List.countP_cons,
            List.countP_cons]
          omega
      | succ n =>
          have hRest := ih (n := n) (by simpa using h)
          rw [List.set_cons_succ, List.countP_cons,
            List.countP_cons]
          omega

/- An element of the same kind changes no count. -/
private theorem countP_set_of_eq
    {α : Type} {l : List α} {n : Nat} {a b : α}
    {p : α → Bool}
    (h : l[n]? = some a)
    (hSame : p b = p a) :
    (l.set n b).countP p = l.countP p := by
  have hSum := countP_set_add p b h
  rw [hSame] at hSum
  omega

namespace Serve

variable {s t : Serve} {e : Event}

/- What the counters are to be when all is received. -/
def counts (s : Serve) : IdleState where
  initOk := decide (s.init = .ready)
  inHello := s.links.countP Link.inHello
  active := s.links.countP Link.isActive

/- A change of a link that is not counted before or after. -/
private theorem counts_set
    {n : Nat} {l : Link}
    (l' : Link)
    (hLink : s.links[n]? = some l)
    (hHello : l'.inHello = l.inHello)
    (hActive : l'.isActive = l.isActive) :
    counts { s with links := s.links.set n l' } =
      s.counts := by
  simp only [counts, countP_set_of_eq hLink hHello,
    countP_set_of_eq hLink hActive]

private theorem counts_spawn
    {n : Nat} {l : Link}
    (hLink : s.links[n]? = some l)
    (hHello : l.inHello = false)
    (hActive : l.isActive = false) :
    counts { s with links := s.links.set n .hello } =
      s.counts.accepted := by
  have hOne :
      (s.links.set n .hello).countP Link.inHello =
        s.links.countP Link.inHello + 1 := by
    have hSum := countP_set_add Link.inHello .hello hLink
    rw [hHello] at hSum
    exact hSum
  have hSame :
      (s.links.set n .hello).countP Link.isActive =
        s.links.countP Link.isActive :=
    countP_set_of_eq hLink hActive.symm
  simp only [counts, IdleState.accepted, hOne, hSame]

/- Closing what is not counted changes no count. -/
private theorem counts_closeAll
    (s : Serve)
    (kind : Link)
    (trigger : Trigger)
    (hHello : kind.inHello = false)
    (hActive : kind.isActive = false) :
    (s.closeAll (fun l => decide (l = kind)) trigger).counts =
      s.counts := by
  have hCount :
      ∀ q : Link → Bool,
        q (.closed (some trigger)) = false →
        q kind = false →
          (s.closeAll (fun l => decide (l = kind))
              trigger).links.countP q =
            s.links.countP q := by
    intro q hClosed hKind
    simp only [closeAll, List.countP_map]
    congr 1
    funext l
    by_cases hl : l = kind
    · simp [hl, hClosed, hKind]
    · simp [hl]
  simp only [counts, hCount Link.inHello rfl hHello,
    hCount Link.isActive rfl hActive]
  rfl

/- What is in a phase is counted there. -/
private theorem countP_pos
    {n : Nat} {l : Link} {p : Link → Bool}
    (hLink : s.links[n]? = some l)
    (hp : p l = true) :
    0 < s.links.countP p :=
  List.countP_pos_iff.mpr
    ⟨l, List.mem_of_getElem? hLink, hp⟩

end Serve

------------------------------------------------------------
-- The Invariant
------------------------------------------------------------

/-
  The counters with what is pending are the real numbers, a
  deadline is set only when nothing is counted, and a select
  is entered with the deadline up to date.
-/
structure Counted (s : Serve) : Prop where
  settled :
    (∀ trigger, s.loop ≠ .stopped trigger) →
      s.timer.state.settle s.queue = some s.counts
  armed :
    s.timer.deadline.isSome = true →
      s.timer.shouldArm = true
  selecting :
    s.loop = .select →
      s.timer.deadline.isSome = s.timer.shouldArm
  locking :
    s.loop = .locking .idle →
      s.timer.deadline.isSome = true

namespace Counted

variable {s t : Serve} {e : Event}

theorem start
    (timeout clock : Nat) :
    Counted (.start timeout clock) where
  settled _ := rfl
  armed h := by cases h
  selecting h := by cases h
  locking h := by cases h

/- A step that neither counts nor touches the timer. -/
private theorem turn
    (hCounted : Counted s)
    (hTimer : t.timer = s.timer)
    (hQueue : t.queue = s.queue)
    (hBefore : ∀ trigger, s.loop ≠ .stopped trigger)
    (hCounts :
      (∀ trigger, t.loop ≠ .stopped trigger) →
        t.counts = s.counts)
    (hSelect : t.loop = .select → s.loop = .select)
    (hLock :
      t.loop = .locking .idle →
        s.timer.deadline.isSome = true) :
    Counted t where
  settled hServing := by
    rw [hTimer, hQueue, hCounts hServing]
    exact hCounted.settled hBefore
  armed := by
    rw [hTimer]
    exact hCounted.armed
  selecting hLoop := by
    rw [hTimer]
    exact hCounted.selecting (hSelect hLoop)
  locking hLoop := by
    rw [hTimer]
    exact hLock hLoop

/- A step of a task, which reports what it does. -/
private theorem report
    {links : List Link} {e : ConnEvent}
    (hCounted : Counted s)
    (hCovers : s.counts.Covers e)
    (hCounts :
      Serve.counts { s with links := links } =
        s.counts.apply e) :
    Counted { s with
      links := links
      queue := s.queue ++ [e] } where
  settled hServing := by
    have hAfter :=
      IdleState.settle_append (hCounted.settled hServing)
        hCovers
    exact hAfter.trans (congrArg some hCounts.symm)
  armed := hCounted.armed
  selecting := hCounted.selecting
  locking := hCounted.locking

/- A step of the loop that applies the next event. -/
private theorem applyNext
    {e : ConnEvent} {rest : List ConnEvent}
    (loop : Loop)
    (hCounted : Counted s)
    (hQueue : s.queue = e :: rest)
    (hBefore : ∀ trigger, s.loop ≠ .stopped trigger)
    (hSelect : loop ≠ .select)
    (hLock : loop ≠ .locking .idle) :
    s.timer.state.Covers e ∧
      Counted { s with
        timer := s.timer.apply e
        queue := rest
        loop := loop } := by
  have hSettled := hCounted.settled hBefore
  rw [hQueue] at hSettled
  rcases IdleState.covers_of_settle hSettled with
    ⟨hCovers, hRest⟩
  refine ⟨hCovers, fun _ => hRest, ?_,
    fun h => absurd h hSelect, fun h => absurd h hLock⟩
  -- with an event pending, no deadline is set
  intro hDeadline
  exact absurd hCovers (IdleState.not_covers_of_shouldArm
    (hCounted.armed hDeadline))

/- A step of the loop that takes a connection in. -/
private theorem spawn
    {n : Nat} {l : Link} {loop : Loop} {backlog : List Nat}
    (hCounted : Counted s)
    (hLink : s.links[n]? = some l)
    (hHello : l.inHello = false)
    (hActive : l.isActive = false)
    (hBefore : ∀ trigger, s.loop ≠ .stopped trigger)
    (hSelect : loop ≠ .select)
    (hLock : loop ≠ .locking .idle) :
    Counted { s.spawnSession n with
      backlog := backlog
      loop := loop } where
  settled _ := by
    have hAfter :=
      IdleState.settle_accepted (hCounted.settled hBefore)
    exact hAfter.trans (congrArg some
      (Serve.counts_spawn hLink hHello hActive).symm)
  armed h := by cases h
  selecting h := absurd h hSelect
  locking h := absurd h hLock

private theorem appended
    (hCounted : Counted s)
    (backlog : List Nat) :
    Counted { s with
      links := s.links ++ [.queued]
      backlog := backlog } where
  settled hServing := by
    have hCount :
        ∀ q : Link → Bool, q .queued = false →
          (s.links ++ [Link.queued]).countP q =
            s.links.countP q := by
      intro q hq
      simp [List.countP_append, hq]
    have hSame :
        Serve.counts { s with
          links := s.links ++ [.queued]
          backlog := backlog } = s.counts := by
      simp only [Serve.counts, hCount Link.inHello rfl,
        hCount Link.isActive rfl]
    rw [hSame]
    exact hCounted.settled hServing
  armed := hCounted.armed
  selecting := hCounted.selecting
  locking := hCounted.locking

theorem next
    (hPlaced : Placed s)
    (hCounted : Counted s)
    (hNext : s.next e = some t) :
    Counted t := by
  cases Serve.next_eq_some hNext with
  | update hLoop =>
      have hSettled := hCounted.settled (by simp [hLoop])
      have hArm :
          (s.timer.update s.clock).deadline.isSome =
            (s.timer.update s.clock).shouldArm := by
        rw [IdleTimer.update_armed_iff, IdleTimer.shouldArm,
          IdleTimer.shouldArm, IdleTimer.update_state]
      refine ⟨fun _ => ?_, fun h => hArm ▸ h, fun _ => hArm,
        fun h => by cases h⟩
      exact (IdleTimer.update_state _ _).symm ▸ hSettled
  | accept n rest hLoop hBacklog =>
      have hLink : s.links[n]? = some .queued :=
        (hPlaced.backlog_iff n).mp (by simp [hBacklog])
      exact hCounted.spawn hLink rfl rfl (by simp [hLoop])
        (by simp) (by simp)
  | turn e hLoop _ =>
      exact hCounted.turn rfl rfl (by simp [hLoop])
        (fun _ => rfl) (fun h => by cases h)
        (fun h => by cases h)
  | initReady hLoop hInit =>
      have hSettled := hCounted.settled (by simp [hLoop])
      refine ⟨fun _ => ?_, fun h => ?_,
        (fun h => by cases h), (fun h => by cases h)⟩
      · exact IdleState.settle_initOk hSettled
      · rcases IdleState.shouldArm_iff.mp
          (hCounted.armed h) with ⟨_, hHello, hActive⟩
        exact IdleState.shouldArm_iff.mpr
          ⟨rfl, hHello, hActive⟩
  | initFailed hLoop hInit =>
      refine hCounted.turn rfl rfl (by simp [hLoop])
        (fun _ => ?_) (fun h => by cases h)
        (fun h => by cases h)
      simp [Serve.counts, hInit]
  | trigger trigger hLoop hFires =>
      refine hCounted.turn rfl rfl (by simp [hLoop])
        (fun _ => rfl) (fun h => by cases h) (fun h => ?_)
      cases h
      rcases (Option.any_eq_true _ _).mp hFires with
        ⟨d, hDeadline, _⟩
      exact Option.isSome_of_eq_some hDeadline
  | receive e rest hLoop hQueue =>
      exact (hCounted.applyNext .top hQueue
        (by simp [hLoop]) (by simp) (by simp)).2
  | locked trigger hLoop =>
      exact hCounted.turn rfl rfl (by simp [hLoop])
        (fun _ => rfl) (fun h => by cases h)
        (fun h => by cases h)
  | postpone hLoop =>
      have hArm :=
        hCounted.armed (hCounted.locking hLoop)
      exact ⟨fun _ => hCounted.settled (by simp [hLoop]),
        fun _ => hArm, (fun h => by cases h),
        (fun h => by cases h)⟩
  | unlocked trigger hLoop _ =>
      exact hCounted.turn rfl rfl (by simp [hLoop])
        (fun _ => rfl) (fun h => by cases h)
        (fun h => by cases h)
  | pull trigger drained n rest hLoop hBacklog =>
      have hLink : s.links[n]? = some .queued :=
        (hPlaced.backlog_iff n).mp (by simp [hBacklog])
      exact hCounted.turn rfl rfl (by simp [hLoop])
        (fun _ => Serve.counts_set _ hLink rfl rfl)
        (fun h => by cases h) (fun h => by cases h)
  | dry drained hLoop _ =>
      exact hCounted.turn rfl rfl (by simp [hLoop])
        (fun _ => rfl) (fun h => by cases h)
        (fun h => by cases h)
  | leave trigger drained hLoop _ _ =>
      refine hCounted.turn rfl rfl (by simp [hLoop])
        (fun _ => ?_) (fun h => by cases h)
        (fun h => by cases h)
      exact s.counts_closeAll .drained trigger rfl rfl
  | settle drained e rest hLoop hQueue =>
      have hBoth := hCounted.applyNext (.applying drained)
        hQueue (by simp [hLoop]) (by simp) (by simp)
      rw [← hLoop] at hBoth
      exact hBoth.2
  | commit hLoop _ _ =>
      exact hCounted.turn rfl rfl (by simp [hLoop])
        (fun _ => rfl) (fun h => by cases h)
        (fun h => by cases h)
  | cancel drained hLoop _ =>
      exact hCounted.turn rfl rfl (by simp [hLoop])
        (fun _ => rfl) (fun h => by cases h)
        (fun h => by cases h)
  | adopt n rest hLoop =>
      have hLink : s.links[n]? = some .drained :=
        (hPlaced.drained_iff n).mp
          (by simp [hLoop, Loop.drained])
      exact hCounted.spawn hLink rfl rfl (by simp [hLoop])
        (by simp) (by simp)
  | discard n rest hLoop =>
      have hLink : s.links[n]? = some .drained :=
        (hPlaced.drained_iff n).mp
          (by simp [hLoop, Loop.drained])
      exact hCounted.turn rfl rfl (by simp [hLoop])
        (fun _ => Serve.counts_set _ hLink rfl rfl)
        (fun h => by cases h) (fun h => by cases h)
  | release _ hLoop =>
      exact hCounted.turn rfl rfl (by simp [hLoop])
        (fun _ => rfl) (fun h => by cases h)
        (fun h => by cases h)
  | dropListener trigger lock hLoop =>
      refine hCounted.turn rfl rfl (by simp [hLoop])
        (fun _ => ?_) (fun h => by cases h)
        (fun h => by cases h)
      exact s.counts_closeAll .queued trigger rfl rfl
  | abortAll trigger hLoop =>
      exact hCounted.turn rfl rfl (by simp [hLoop])
        (fun h => absurd rfl (h trigger))
        (fun h => by cases h) (fun h => by cases h)
  | tick d =>
      exact ⟨hCounted.settled, hCounted.armed,
        hCounted.selecting, hCounted.locking⟩
  | connect _ => exact hCounted.appended _
  | greet n hLink _ =>
      refine ⟨fun h => ?_, hCounted.armed,
        hCounted.selecting, hCounted.locking⟩
      have hSame := Serve.counts_set .greeted hLink rfl
        rfl
      exact (hCounted.settled h).trans
        (congrArg some hSame.symm)
  | activate n hLink =>
      refine hCounted.report (Serve.countP_pos hLink rfl) ?_
      have hHello := countP_set_add Link.inHello .active hLink
      have hActive :=
        countP_set_add Link.isActive .active hLink
      simp [Serve.counts, IdleState.apply, decrement,
        Link.inHello, Link.isActive] at hHello hActive ⊢
      omega
  | endSession n hLink =>
      refine hCounted.report (Serve.countP_pos hLink rfl) ?_
      have hHello := countP_set_add Link.inHello .ended hLink
      have hActive :=
        countP_set_add Link.isActive .ended hLink
      simp [Serve.counts, IdleState.apply, decrement,
        Link.inHello, Link.isActive] at hHello hActive ⊢
      omega
  | failHello n l hLink hHello =>
      refine hCounted.report
        (Serve.countP_pos hLink hHello) ?_
      have hNot : l.isActive = false := by
        cases l <;> first | rfl | cases hHello
      have hIn := countP_set_add Link.inHello .ended hLink
      have hActive :=
        countP_set_add Link.isActive .ended hLink
      rw [hHello] at hIn
      rw [hNot] at hActive
      simp [Serve.counts, IdleState.apply, decrement,
        Link.inHello, Link.isActive] at hIn hActive ⊢
      omega

end Counted

/- Both invariants hold in every state that is reached. -/
theorem counted_of_reachable
    {s : Serve}
    (hReach : machine.Reachable s) :
    Placed s ∧ Counted s := by
  rcases hReach with ⟨s₀, es, ⟨timeout, clock, rfl⟩, hRun⟩
  refine Machine.Run.invariant
    (I := fun s => Placed s ∧ Counted s) ?_ hRun
    ⟨.start timeout clock, .start timeout clock⟩
  intro s e t hBoth hStep
  exact ⟨hBoth.1.next hStep, hBoth.2.next hBoth.1 hStep⟩

------------------------------------------------------------
-- Failed Hellos
------------------------------------------------------------

/- The deadline is kept, with no passed hello pending. -/
structure Probed (deadline : Nat) (s : Serve) : Prop where
  keeps : s.timer.Keeps deadline
  pending : ConnEvent.helloPassed ∉ s.queue
  ready : s.timer.state.initOk = true

/- Steps of a run in which no hello passes. -/
def Event.Probe (e : Event) : Prop :=
  e ≠ .lock false ∧ ∀ n, e ≠ .activate n

namespace Probed

variable {s t : Serve} {e : Event} {deadline : Nat}

private theorem receive
    {e : ConnEvent} {rest : List ConnEvent}
    (loop : Loop)
    (hProbed : Probed deadline s)
    (hCounted : Counted s)
    (hQueue : s.queue = e :: rest)
    (hBefore : ∀ trigger, s.loop ≠ .stopped trigger) :
    Probed deadline { s with
      timer := s.timer.apply e
      queue := rest
      loop := loop } := by
  have hPending := hProbed.pending
  have hSettled := hCounted.settled hBefore
  rw [hQueue, List.mem_cons, not_or] at hPending
  rw [hQueue] at hSettled
  refine ⟨hProbed.keeps.apply
    (IdleState.covers_of_settle hSettled).1
    (Ne.symm hPending.1), hPending.2, ?_⟩
  rw [← hProbed.ready]
  cases e <;> rfl

private theorem report
    {e : ConnEvent} {links : List Link}
    (hProbed : Probed deadline s)
    (hFailed : e ≠ .helloPassed) :
    Probed deadline { s with
      links := links
      queue := s.queue ++ [e] } :=
  ⟨hProbed.keeps,
    by simpa using ⟨hProbed.pending, hFailed.symm⟩,
    hProbed.ready⟩

theorem next
    (hCounted : Counted s)
    (hProbed : Probed deadline s)
    (hProbe : e.Probe)
    (hNext : s.next e = some t) :
    Probed deadline t := by
  rcases hProbed with ⟨hKeeps, hPending, hReady⟩
  cases Serve.next_eq_some hNext with
  | update _ =>
      exact ⟨hKeeps.update _, hPending,
        (IdleTimer.update_state _ _).symm ▸ hReady⟩
  | accept _ _ _ _ => exact ⟨hKeeps.accepted, hPending, hReady⟩
  | adopt _ _ _ => exact ⟨hKeeps.accepted, hPending, hReady⟩
  | initReady _ _ =>
      refine ⟨?_, hPending, rfl⟩
      rcases hKeeps with ⟨hSet, hArm⟩ | hNone
      · rcases IdleState.shouldArm_iff.mp hArm with
          ⟨_, hHello, hActive⟩
        exact Or.inl ⟨hSet, IdleState.shouldArm_iff.mpr
          ⟨rfl, hHello, hActive⟩⟩
      · exact Or.inr hNone
  | receive _ _ hLoop hQueue =>
      exact receive .top ⟨hKeeps, hPending, hReady⟩ hCounted
        hQueue (by simp [hLoop])
  | settle _ _ _ hLoop hQueue =>
      have hAfter := receive s.loop
        ⟨hKeeps, hPending, hReady⟩ hCounted hQueue
        (by simp [hLoop])
      exact hAfter
  | postpone _ => exact absurd rfl hProbe.1
  | unlocked _ _ _ => exact absurd rfl hProbe.1
  | activate n _ => exact absurd rfl (hProbe.2 n)
  | endSession _ _ =>
      exact report ⟨hKeeps, hPending, hReady⟩ (by simp)
  | failHello _ _ _ _ =>
      exact report ⟨hKeeps, hPending, hReady⟩ (by simp)
  | _ => exact ⟨hKeeps, hPending, hReady⟩

/- A deadline that is set is kept until a hello passes. -/
theorem run
    {es : List Event}
    (hReach : machine.Reachable s)
    (hSet : s.timer.deadline = some deadline)
    (hServing : ∀ trigger, s.loop ≠ .stopped trigger)
    (hRun : machine.Run s es t)
    (hProbes : ∀ e ∈ es, e.Probe) :
    Probed deadline t := by
  rcases hReach with ⟨s₀, es₀, hInit, hRun₀⟩
  have hCounted :=
    (counted_of_reachable ⟨s₀, es₀, hInit, hRun₀⟩).2
  have hArm : s.timer.shouldArm = true :=
    hCounted.armed (Option.isSome_of_eq_some hSet)
  have hEmpty : s.queue = [] :=
    IdleState.eq_nil_of_shouldArm hArm
      (hCounted.settled hServing)
  induction hRun with
  | nil =>
      exact ⟨Or.inl ⟨hSet, hArm⟩, by simp [hEmpty],
        (IdleState.shouldArm_iff.mp hArm).1⟩
  | @snoc t u es e hRun hStep ih =>
      have hBefore := ih
        (fun e he => hProbes e (List.mem_append_left _ he))
      have hBoth := counted_of_reachable
        ⟨s₀, es₀ ++ es, hInit, hRun₀.append hRun⟩
      exact hBefore.next hBoth.2 (hProbes e (by simp)) hStep

end Probed

------------------------------------------------------------
-- Idle Accounting
------------------------------------------------------------

/-
  As long as the daemon has not stopped, a pending event
  never finds its count at zero, the counts with nothing
  pending are the real ones, and after an update the deadline
  is set exactly when the daemon is ready and counts nothing.
  Hellos that fail leave the deadline where it was.
-/
theorem idle_accounting
    {s : Serve}
    (hReach : machine.Reachable s)
    (hServing : ∀ trigger, s.loop ≠ .stopped trigger) :
    (s.queue = [] →
      s.timer.state.inHello =
          s.links.countP Link.inHello ∧
        s.timer.state.active =
          s.links.countP Link.isActive) ∧
    (∀ e rest, s.queue = e :: rest →
      s.timer.state.Covers e) ∧
    (∀ t, s.next .update = some t →
      (t.timer.deadline.isSome = true ↔
        t.init = .ready ∧ t.timer.state.inHello = 0 ∧
          t.timer.state.active = 0)) ∧
    (∀ deadline es t,
      s.timer.deadline = some deadline →
      machine.Run s es t →
      (∀ e ∈ es, e.Probe) →
      t.loop = .select →
      t.queue = [] →
      (∀ l ∈ t.links, l.live = false) →
        t.timer.deadline = some deadline) := by
  have hCounted := (counted_of_reachable hReach).2
  have hSettled := hCounted.settled hServing
  refine ⟨fun hEmpty => ?_, fun e rest hQueue => ?_,
    fun t hNext => ?_, ?_⟩
  · rw [hEmpty] at hSettled
    rw [IdleState.settle_nil hSettled]
    exact ⟨rfl, rfl⟩
  · rw [hQueue] at hSettled
    exact (IdleState.covers_of_settle hSettled).1
  · have hOk : s.timer.state.initOk = decide (s.init = .ready) :=
      (IdleState.initOk_of_settle hSettled).symm
    cases Serve.next_eq_some hNext with
    | update hLoop =>
        simp only [IdleTimer.update_armed_iff,
          IdleTimer.update_state]
        rw [IdleTimer.shouldArm, IdleState.shouldArm_iff, hOk,
          decide_eq_true_iff]
    | turn _ _ hEvent =>
        rcases hEvent with h | h <;> cases h
  · intro deadline es t hSet hRun hProbes hSelect hEmpty
      hEnded
    have hProbed :=
      Probed.run hReach hSet hServing hRun hProbes
    rcases hReach with ⟨s₀, es₀, hInit, hRun₀⟩
    have hAfter := (counted_of_reachable
      ⟨s₀, es₀ ++ es, hInit, hRun₀.append hRun⟩).2
    have hState := hAfter.settled (by simp [hSelect])
    rw [hEmpty] at hState
    have hNone :
        ∀ p : Link → Bool, (∀ l, p l = true → l.live = true) →
          t.links.countP p = 0 := by
      intro p hLive
      rw [List.countP_eq_zero]
      intro l hl hp
      exact absurd (hLive l hp) (by simp [hEnded l hl])
    have hArm : t.timer.shouldArm = true := by
      refine IdleState.shouldArm_iff.mpr
        ⟨hProbed.ready, ?_, ?_⟩
      · rw [IdleState.settle_nil hState]
        exact hNone _ (by simp +contextual [Link.live])
      · rw [IdleState.settle_nil hState]
        exact hNone _ (by simp +contextual [Link.live])
    rcases hProbed.keeps with ⟨hSame, _⟩ | ⟨hUnset, _⟩
    · exact hSame
    · have hIsSome := hAfter.selecting hSelect
      rw [hUnset, hArm] at hIsSome
      cases hIsSome

/- Two probes that overlap leave the deadline at ten. -/
theorem idle_accounting_two_probes :
    ∃ s t : Serve,
      s.timer.deadline = some 10 ∧ t.clock = 4 ∧
        t.timer.deadline = some 10 := by
  let probes : List Event :=
    [.connect, .connect, .accept, .update, .tick 4, .accept,
      .finish 0, .update, .receive, .finish 1, .update,
      .receive, .update]
  let test : Serve → Bool := fun t =>
    decide (t.loop = .select ∧ t.queue = [] ∧ t.clock = 4 ∧
      ∀ l ∈ t.links, l.live = false)
  rcases Serve.run_of_any (.start 10 0)
    [.update, .initDone true, .update]
    (fun s => decide (s.loop = .select ∧
      s.timer.deadline = some 10 ∧
        (probes.foldlM Serve.next s).any test = true))
    (by decide +kernel) with ⟨s, hRun, hTest⟩
  rcases of_decide_eq_true hTest with
    ⟨hLoop, hDeadline, hProbes⟩
  rcases Serve.run_of_any s probes test hProbes with
    ⟨t, hRun', hTest'⟩
  rcases of_decide_eq_true hTest' with
    ⟨hSelect, hEmpty, hClock, hEnded⟩
  refine ⟨s, t, hDeadline, hClock, ?_⟩
  exact (idle_accounting ⟨_, _, ⟨10, 0, rfl⟩, hRun⟩
    (by simp [hLoop])).2.2.2 10 probes t hDeadline hRun'
    (by simp [probes, Event.Probe]) hSelect hEmpty hEnded

end Daemon

end Ferrex
