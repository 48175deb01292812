import Ferrex.Daemon.Accounting

/-
  Idle exits: the daemon goes ahead with one only when all
  that it accepted has ended and its backlog was empty, and
  closes no connection that it should have served.

  Main declarations:
    * `Serve.link_next`
    * `Quiet`, `Spared`, `Swept`
    * `idle_exit_spares`
-/

------------------------------------------------------------
-- What a Step Does to a Connection
------------------------------------------------------------

namespace Ferrex

namespace Daemon

/-
  No idle exit is to close what is in the backlog: no drain
  has found that empty, or the exit was cancelled.
-/
def Loop.spares : Loop → Bool
| .applying [] => false
| .committed trigger _ => decide (trigger ≠ .idle)
| .closing trigger => decide (trigger ≠ .idle)
| .stopped trigger => decide (trigger ≠ .idle)
| _ => true

/-
  A link goes on, but not into the backlog, and what closes
  it for an idle exit is the end of one.
-/
structure LinkStep (s : Serve) (l l' : Link) : Prop where
  queued : l' = .queued → l = .queued
  closed :
    l' = .closed (some .idle) →
      l = .closed (some .idle) ∨
        (s.loop.exit = some .idle ∧
          (l = .queued ∨ l.live = true))
  live :
    l'.live = true →
      l.live = true ∨ s.loop.exit = none

namespace LinkStep

variable {s : Serve} {l l' : Link}

theorem same : LinkStep s l l where
  queued h := h
  closed h := Or.inl h
  live h := Or.inl h

/- The cases in which a step replaces one link. -/
theorem moved
    (hQueued : l' ≠ .queued)
    (hClosed : l' ≠ .closed (some .idle))
    (hLive :
      l'.live = true → l.live = true ∨ s.loop.exit = none) :
    LinkStep s l l' where
  queued h := absurd h hQueued
  closed h := absurd h hClosed
  live := hLive

end LinkStep

namespace Serve

variable {s t : Serve} {e : Event} {n : Nat} {l : Link}

private theorem link_set
    {m : Nat} {l₀ l' : Link}
    (hLink : s.links[n]? = some l)
    (hSet : s.links[m]? = some l₀)
    (hStep : LinkStep s l₀ l') :
    ∃ k, (s.links.set m l')[n]? = some k ∧
      LinkStep s l k := by
  rw [getElem?_set_of_eq_some l' hSet]
  by_cases hEq : n = m
  · subst hEq
    rw [hSet] at hLink
    cases hLink
    exact ⟨l', if_pos rfl, hStep⟩
  · exact ⟨l, by rw [if_neg hEq, hLink], .same⟩

private theorem link_closeAll
    {p : Link → Bool} {trigger : Trigger}
    (hLink : s.links[n]? = some l)
    (hExit :
      trigger = .idle →
        p l = true → s.loop.exit = some .idle ∧
          (l = .queued ∨ l.live = true)) :
    ∃ k, (s.closeAll p trigger).links[n]? = some k ∧
      LinkStep s l k := by
  simp only [closeAll, List.getElem?_map, hLink,
    Option.map_some]
  by_cases hp : p l = true
  · refine ⟨_, rfl, ?_⟩
    rw [if_pos hp]
    constructor
    case closed =>
      intro h
      cases h
      exact Or.inr (hExit rfl hp)
    all_goals
      intro h
      cases h
  · refine ⟨_, rfl, ?_⟩
    rw [if_neg hp]
    exact .same

theorem link_next
    (hPlaced : Placed s)
    (hNext : s.next e = some t)
    (hLink : s.links[n]? = some l) :
    ∃ k, t.links[n]? = some k ∧ LinkStep s l k := by
  cases next_eq_some hNext with
  | accept m rest hLoop hBacklog =>
      exact link_set hLink
        ((hPlaced.backlog_iff m).mp (by simp [hBacklog]))
        (.moved (by simp) (by simp)
          (fun _ => Or.inr (by rw [hLoop]; rfl)))
  | pull _ _ m rest _ hBacklog =>
      exact link_set hLink
        ((hPlaced.backlog_iff m).mp (by simp [hBacklog]))
        (.moved (by simp) (by simp) (fun h => by cases h))
  | leave trigger _ _ hTrigger _ =>
      exact link_closeAll hLink
        (fun h => absurd h hTrigger)
  | adopt m rest hLoop =>
      exact link_set hLink
        ((hPlaced.drained_iff m).mp
          (by simp [hLoop, Loop.drained]))
        (.moved (by simp) (by simp)
          (fun _ => Or.inr (by rw [hLoop]; rfl)))
  | discard m rest hLoop =>
      exact link_set hLink
        ((hPlaced.drained_iff m).mp
          (by simp [hLoop, Loop.drained]))
        (.moved (by simp) (by simp) (fun h => by cases h))
  | dropListener trigger lock hLoop =>
      refine link_closeAll hLink (fun hIdle hQueued => ?_)
      rw [hLoop, hIdle]
      exact ⟨rfl, Or.inl (of_decide_eq_true hQueued)⟩
  | abortAll trigger hLoop =>
      refine link_closeAll hLink (fun hIdle hLive => ?_)
      rw [hLoop, hIdle]
      exact ⟨rfl, Or.inr hLive⟩
  | connect _ =>
      refine ⟨l, ?_, .same⟩
      have hLt := (List.getElem?_eq_some_iff.mp hLink).1
      exact (List.getElem?_append_left hLt).trans hLink
  | greet m hSet _ =>
      exact link_set hLink hSet
        (.moved (by simp) (by simp) (fun _ => Or.inl rfl))
  | activate m hSet =>
      exact link_set hLink hSet
        (.moved (by simp) (by simp) (fun _ => Or.inl rfl))
  | endSession m hSet =>
      exact link_set hLink hSet
        (.moved (by simp) (by simp) (fun h => by cases h))
  | failHello m l₀ hSet _ =>
      exact link_set hLink hSet
        (.moved (by simp) (by simp) (fun h => by cases h))
  | _ => exact ⟨l, hLink, .same⟩

/- A connection that was not there before has just come. -/
theorem link_fresh
    (hNext : s.next e = some t)
    (hNone : s.links[n]? = none)
    (hLink : t.links[n]? = some l) :
    l = .queued := by
  have hGe : s.links.length ≤ n :=
    List.getElem?_eq_none_iff.mp hNone
  have hLt : n < t.links.length :=
    (List.getElem?_eq_some_iff.mp hLink).1
  cases next_eq_some hNext with
  | connect _ =>
      have hEq : n = s.links.length := by
        simp only [List.length_append,
          List.length_singleton] at hLt
        omega
      subst hEq
      simpa using hLink.symm
  | _ =>
      simp only [spawnSession, closeAll, List.length_set,
        List.length_map] at hLt
      omega

/- An idle exit starts where nothing is pending. -/
theorem exit_next
    (hNext : s.next e = some t)
    (hExit : t.loop.exit = some .idle) :
    s.loop.exit = some .idle ∨
      (s.loop = .applying [] ∧ t.links = s.links ∧
        s.timer.shouldArm = true) := by
  cases next_eq_some hNext with
  | commit hLoop _ hArm =>
      exact Or.inr ⟨hLoop, rfl, hArm⟩
  | dropListener trigger lock hLoop =>
      rw [hLoop]
      exact Or.inl hExit
  | abortAll trigger hLoop =>
      rw [hLoop]
      exact Or.inl hExit
  | unlocked trigger _ hTrigger =>
      exact absurd (Option.some.inj hExit) hTrigger
  | leave trigger _ _ hTrigger _ =>
      exact absurd (Option.some.inj hExit) hTrigger
  | settle _ _ _ hLoop _ => exact Or.inl hExit
  | tick _ => exact Or.inl hExit
  | connect _ => exact Or.inl hExit
  | greet _ _ _ => exact Or.inl hExit
  | activate _ _ => exact Or.inl hExit
  | endSession _ _ => exact Or.inl hExit
  | failHello _ _ _ _ => exact Or.inl hExit
  | _ => cases hExit

end Serve

------------------------------------------------------------
-- A Quiet Exit
------------------------------------------------------------

/- No connection is served once an idle exit goes ahead. -/
def Quiet (s : Serve) : Prop :=
  s.loop.exit = some .idle →
    ∀ l ∈ s.links, l.live = false

/- With all counts at zero no connection is served. -/
theorem Counted.not_live
    {s : Serve}
    (hCounted : Counted s)
    (hServing : ∀ trigger, s.loop ≠ .stopped trigger)
    (hArm : s.timer.shouldArm = true) :
    ∀ l ∈ s.links, l.live = false := by
  have hSettled := hCounted.settled hServing
  rw [IdleState.eq_nil_of_shouldArm hArm hSettled] at hSettled
  rw [IdleTimer.shouldArm, IdleState.settle_nil hSettled,
    IdleState.shouldArm_iff] at hArm
  rcases hArm with ⟨_, hHello, hActive⟩
  intro l hl
  have hNotHello := List.countP_eq_zero.mp hHello l hl
  have hNotActive := List.countP_eq_zero.mp hActive l hl
  simp [Link.live, hNotHello, hNotActive]

theorem Quiet.next
    {s t : Serve} {e : Event}
    (hPlaced : Placed s)
    (hCounted : Counted s)
    (hQuiet : Quiet s)
    (hNext : s.next e = some t) :
    Quiet t := by
  intro hExit
  rcases Serve.exit_next hNext hExit with
    hBefore | ⟨hLoop, hLinks, hArm⟩
  case inr =>
    rw [hLinks]
    exact hCounted.not_live (by simp [hLoop]) hArm
  intro l' hl'
  rcases List.getElem?_of_mem hl' with ⟨n, hn⟩
  cases hLink : s.links[n]? with
  | none =>
      rw [Serve.link_fresh hNext hLink hn]
      rfl
  | some l =>
      rcases Serve.link_next hPlaced hNext hLink with
        ⟨k, hk, hStep⟩
      rw [hn] at hk
      cases hk
      have hEnded :=
        hQuiet hBefore l (List.mem_of_getElem? hLink)
      cases hLive : l'.live with
      | false => rfl
      | true =>
          rcases hStep.live hLive with h | h
          · rw [hEnded] at h
            cases h
          · rw [hBefore] at h
            cases h

/- All invariants hold in every state that is reached. -/
theorem quiet_of_reachable
    {s : Serve}
    (hReach : machine.Reachable s) :
    Placed s ∧ Counted s ∧ Quiet s := by
  rcases hReach with ⟨s₀, es, ⟨timeout, clock, rfl⟩, hRun⟩
  refine Machine.Run.invariant
    (I := fun s => Placed s ∧ Counted s ∧ Quiet s) ?_ hRun
    ⟨.start timeout clock, .start timeout clock,
      fun h => by cases h⟩
  rintro s e t ⟨hPlaced, hCounted, hQuiet⟩ hStep
  exact ⟨hPlaced.next hStep, hCounted.next hPlaced hStep,
    hQuiet.next hPlaced hCounted hStep⟩

------------------------------------------------------------
-- Connections That Are Spared
------------------------------------------------------------

/- A connection that no idle exit closes. -/
def Spared (n : Nat) (s : Serve) : Prop :=
  ∃ l, s.links[n]? = some l ∧
    l ≠ .closed (some .idle) ∧
    (l = .queued → s.loop.spares = true)

/- Only a drain that finds nothing ends this. -/
theorem Serve.spares_next
    {s t : Serve} {e : Event}
    (hNext : s.next e = some t)
    (hSpares : s.loop.spares = true) :
    t.loop.spares = true ∨ s.backlog = [] := by
  cases next_eq_some hNext with
  | unlocked trigger _ hTrigger =>
      exact Or.inl (decide_eq_true hTrigger)
  | leave trigger _ _ hTrigger _ =>
      exact Or.inl (decide_eq_true hTrigger)
  | dry drained _ hBacklog => exact Or.inr hBacklog
  | commit hLoop _ _ =>
      rw [hLoop] at hSpares
      cases hSpares
  | dropListener trigger _ hLoop =>
      rw [hLoop] at hSpares
      exact Or.inl hSpares
  | abortAll trigger hLoop =>
      rw [hLoop] at hSpares
      exact Or.inl hSpares
  | settle _ _ _ _ _ => exact Or.inl hSpares
  | tick _ => exact Or.inl hSpares
  | connect _ => exact Or.inl hSpares
  | greet _ _ _ => exact Or.inl hSpares
  | activate _ _ => exact Or.inl hSpares
  | endSession _ _ => exact Or.inl hSpares
  | failHello _ _ _ _ => exact Or.inl hSpares
  | _ => exact Or.inl rfl

theorem Loop.not_spares_of_exit
    {loop : Loop}
    (hExit : loop.exit = some .idle) :
    loop.spares = false := by
  cases loop <;> cases hExit <;> rfl

theorem Spared.next
    {s t : Serve} {e : Event} {n : Nat}
    (hPlaced : Placed s)
    (hQuiet : Quiet s)
    (hSpared : Spared n s)
    (hNext : s.next e = some t) :
    Spared n t := by
  rcases hSpared with ⟨l, hLink, hOpen, hSeen⟩
  rcases Serve.link_next hPlaced hNext hLink with
    ⟨k, hk, hStep⟩
  refine ⟨k, hk, fun hClosed => ?_, fun hQueued => ?_⟩
  · rcases hStep.closed hClosed with hSame | ⟨hExit, hKind⟩
    · exact hOpen hSame
    rcases hKind with hQueued | hLive
    · have hSpares := hSeen hQueued
      rw [Loop.not_spares_of_exit hExit] at hSpares
      cases hSpares
    · have hEnded :=
        hQuiet hExit l (List.mem_of_getElem? hLink)
      rw [hLive] at hEnded
      cases hEnded
  · have hBefore := hStep.queued hQueued
    rcases Serve.spares_next hNext (hSeen hBefore) with
      hSpares | hEmpty
    · exact hSpares
    · -- a drain that finds nothing has not missed this one
      have hMem := (hPlaced.backlog_iff n).mpr
        (hBefore ▸ hLink)
      rw [hEmpty] at hMem
      cases hMem

------------------------------------------------------------
-- The Last Drain
------------------------------------------------------------

/-
  The drain in which an idle exit decided, the last one so
  far: it took what it took and then found the backlog empty.
-/
def Swept
    (s₀ : Serve)
    (es : List Event)
    (drained : List Nat) : Prop :=
  ∃ es₁ es₂ s,
    es = es₁ ++ .drain :: es₂ ∧
    Event.drain ∉ es₂ ∧
    machine.Run s₀ es₁ s ∧
    s.loop = .draining .idle drained ∧
    s.backlog = []

theorem swept_of_run
    {s₀ s : Serve} {es : List Event} {drained : List Nat}
    (hStart : s₀.loop = .top)
    (hRun : machine.Run s₀ es s)
    (hLoop : s.loop = .applying drained) :
    Swept s₀ es drained := by
  induction hRun with
  | nil =>
      rw [hStart] at hLoop
      cases hLoop
  | @snoc s t es e hFirst hStep ih =>
      have hCarry :
          e ≠ .drain → s.loop = .applying drained →
            Swept s₀ (es ++ [e]) drained := by
        intro hOther hBefore
        rcases ih hBefore with
          ⟨es₁, es₂, m, rfl, hLast, hRun', hDrain, hEmpty⟩
        refine ⟨es₁, es₂ ++ [e], m, by simp, ?_, hRun', hDrain,
          hEmpty⟩
        simp [hLast, hOther.symm]
      cases Serve.next_eq_some hStep with
      | dry drained' hDrain hEmpty =>
          cases hLoop
          exact ⟨es, [], s, rfl, by simp, hFirst, hDrain,
            hEmpty⟩
      | settle _ _ _ _ _ => exact hCarry (by simp) hLoop
      | tick _ => exact hCarry (by simp) hLoop
      | connect _ => exact hCarry (by simp) hLoop
      | greet _ _ _ => exact hCarry (by simp) hLoop
      | activate _ _ => exact hCarry (by simp) hLoop
      | endSession _ _ => exact hCarry (by simp) hLoop
      | failHello _ _ _ _ => exact hCarry (by simp) hLoop
      | _ => cases hLoop

------------------------------------------------------------
-- Idle Exits
------------------------------------------------------------

/-
  The daemon goes ahead with an idle exit only when nothing
  it accepted is left and the drain found no connection.  A
  connection in the backlog that a drain is still to look at,
  or one that is being served, is never closed by it.
-/
theorem idle_exit_spares
    {s₀ s : Serve} {es : List Event}
    (hInit : machine.initial s₀)
    (hRun : machine.Run s₀ es s) :
    (∀ e t, s.next e = some t →
      s.loop.exit = none →
      t.loop.exit = some .idle →
        (∀ l ∈ s.links, l.live = false ∧ l ≠ .drained) ∧
          Swept s₀ es []) ∧
    (∀ (n : Nat) fs t,
      (s.links[n]? = some .queued ∧ s.loop.spares = true) ∨
        (∃ l, s.links[n]? = some l ∧ l.live = true) →
      machine.Run s fs t →
        t.links[n]? ≠ some (.closed (some .idle))) := by
  rcases quiet_of_reachable ⟨s₀, es, hInit, hRun⟩ with
    ⟨hPlaced, hCounted, hQuiet⟩
  constructor
  · intro e t hNext hBefore hExit
    rcases Serve.exit_next hNext hExit with
      h | ⟨hLoop, _, hArm⟩
    · rw [hBefore] at h
      cases h
    have hTop : s₀.loop = .top := by
      rcases hInit with ⟨timeout, clock, rfl⟩
      rfl
    refine ⟨fun l hl => ⟨hCounted.not_live (by simp [hLoop])
      hArm l hl, ?_⟩, swept_of_run hTop hRun hLoop⟩
    rintro rfl
    rcases List.getElem?_of_mem hl with ⟨n, hn⟩
    have hMem := (hPlaced.drained_iff n).mpr hn
    rw [hLoop] at hMem
    cases hMem
  · intro n fs t hKind hRest
    have hSpared : Spared n s := by
      rcases hKind with ⟨hQueued, hSpares⟩ | ⟨l, hl, hLive⟩
      · exact ⟨.queued, hQueued, by simp, fun _ => hSpares⟩
      · refine ⟨l, hl, ?_, ?_⟩
        · rintro rfl
          cases hLive
        · rintro rfl
          cases hLive
    have hAll := Machine.Run.invariant
      (I := fun s =>
        (Placed s ∧ Counted s ∧ Quiet s) ∧ Spared n s)
      ?_ hRest ⟨⟨hPlaced, hCounted, hQuiet⟩, hSpared⟩
    · rcases hAll.2 with ⟨l, hl, hOpen, _⟩
      rw [hl]
      exact fun h => hOpen (Option.some.inj h)
    · rintro s e t ⟨⟨hPlaced, hCounted, hQuiet⟩, hSpared⟩ hStep
      exact ⟨⟨hPlaced.next hStep, hCounted.next hPlaced hStep,
        hQuiet.next hPlaced hCounted hStep⟩,
        hSpared.next hPlaced hQuiet hStep⟩

/-
  A session ends and the daemon goes, with a connection that
  came too late; the one that was in time is never closed.
-/
theorem idle_exit_spares_session :
    ∃ s t : Serve,
      t.links = [.ended, .closed (some .idle)] ∧
        (∀ n : Nat, s.links[n]? = some .queued →
          t.links[n]? ≠ some (.closed (some .idle))) := by
  let rest : List Event :=
    [.update, .initDone true, .update, .accept, .update,
      .greet 0, .activate 0, .finish 0, .receive, .update,
      .receive, .update, .tick 10, .trigger .idle,
      .lock true, .drain, .connect, .decide, .dropListener,
      .abortAll]
  rcases Serve.run_of_any (.start 10 0) [.connect]
    (fun s => decide (s.loop = .top ∧
      (rest.foldlM Serve.next s).any (fun t => decide
        (t.links = [.ended, .closed (some .idle)])) = true))
    (by decide +kernel) with ⟨s, hRun, hTest⟩
  rcases of_decide_eq_true hTest with ⟨hTop, hRest⟩
  rcases Serve.run_of_any s rest _ hRest with
    ⟨t, hRun', hTest'⟩
  refine ⟨s, t, of_decide_eq_true hTest', ?_⟩
  intro n hQueued
  exact (idle_exit_spares ⟨10, 0, rfl⟩ hRun).2 n rest t
    (Or.inl ⟨hQueued, by rw [hTop]; rfl⟩) hRun'

end Daemon

end Ferrex
