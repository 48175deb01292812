import Ferrex.Proxy.Budget

/-
  The call of `stalled`: it resolves only on a park that has
  lasted for the whole grace, and no park that begins while it
  waits is missed.

  Main declarations:
    * `Lasts`, `Output.Watched`
    * `Output.Undisturbed`, `Output.left`
    * `StallExact`, `stall_exact`
-/

------------------------------------------------------------
-- Parks That Last
------------------------------------------------------------

namespace Ferrex

namespace Proxy

namespace Budget

/- The park with this number began at `t` and has not ended. -/
def Lasts
    (log : List Entry)
    (seq t : Nat) : Prop :=
  ∃ front rest, log = front ++ .begun seq t :: rest ∧
    ∀ e ∈ rest, ∃ n u, e = .stalled n u

/- A note of a stall does not end a park. -/
theorem Lasts.snoc
    {log : List Entry}
    {seq t n u : Nat}
    (hLasts : Lasts log seq t) :
    Lasts (log ++ [.stalled n u]) seq t := by
  rcases hLasts with ⟨front, rest, hLog, hRest⟩
  refine ⟨front, rest ++ [.stalled n u], ?_, ?_⟩
  · rw [hLog, List.append_assoc, List.cons_append]
  · intro e hMem
    rcases List.mem_append.mp hMem with hOld | hNew
    · exact hRest e hOld
    · exact ⟨n, u, List.mem_singleton.mp hNew⟩

/- A notified watcher waits for nothing. -/
theorem Watcher.of_wake_waiting
    {w : Watcher} :
    w.wake ≠ .waiting false := by
  cases w <;> simp [Watcher.wake]

/- A watcher that is woken and sleeps has slept before. -/
theorem Watcher.of_wake_sleeping
    {w : Watcher}
    {park : Park}
    (hWake : w.wake = .sleeping park) :
    w = .sleeping park := by
  cases w <;> simp_all [Watcher.wake]

/- A watcher that has resolved stays so when it is woken. -/
theorem Watcher.of_wake_stalled
    {w : Watcher}
    (hWake : w.wake = .stalled) :
    w = .stalled := by
  cases w <;> simp_all [Watcher.wake]

------------------------------------------------------------
-- What the Watcher Knows
------------------------------------------------------------

namespace Output

variable {s t : Output} {e : Event}

/- The pump has started its park and is about to notify. -/
def Announces (s : Output) : Prop :=
  ∃ c, s.pump = .announcing c

/-
  A waiting watcher that was not notified has no park to wait
  for, up to the one that is just being announced.  A sleeping
  one sleeps on a park that began no later than the present
  one, so that it does not wake too late for it.
-/
structure Watched (s : Output) : Prop where
  current :
    ∀ since, s.park.since = some since →
      Lasts s.log s.park.seq since ∧ since ≤ s.now
  waiting :
    s.watcher = .waiting false →
      s.park.since = none ∨ s.Announces
  sleeping :
    ∀ park, s.watcher = .sleeping park →
      ∃ since, park.since = some since ∧ since ≤ s.now ∧
        ∀ later, s.park.since = some later → since ≤ later

namespace Watched

/- What leaves the park and the watcher alone. -/
theorem same
    (hWatched : s.Watched)
    (hPark : t.park = s.park)
    (hWatcher : t.watcher = s.watcher)
    (hLog : t.log = s.log)
    (hNow : s.now ≤ t.now)
    (hAnnounces : s.Announces → t.Announces) :
    t.Watched where
  current := by
    intro since hSince
    rw [hPark] at hSince ⊢
    rw [hLog]
    rcases hWatched.current since hSince with ⟨hLasts, hPast⟩
    exact ⟨hLasts, Nat.le_trans hPast hNow⟩
  waiting := by
    rw [hPark, hWatcher]
    exact fun hWaiting =>
      (hWatched.waiting hWaiting).imp_right hAnnounces
  sleeping := by
    rw [hPark, hWatcher]
    intro park hSleeping
    rcases hWatched.sleeping park hSleeping with
      ⟨since, hSince, hPast, hLater⟩
    exact ⟨since, hSince, Nat.le_trans hPast hNow, hLater⟩

/- The pump is elsewhere. -/
theorem away
    (hPump : ∀ c, s.pump ≠ .announcing c) :
    s.Announces → t.Announces := by
  rintro ⟨c, hAnnounces⟩
  exact absurd hAnnounces (hPump c)

/- The pump's steps begin and end parks, and notify. -/
theorem turn
    {pump : Pump}
    (hWatched : s.Watched)
    (hTurn : Turn s e pump) :
    (s.pumping pump).Watched := by
  apply hWatched.same (t := s.pumping pump) rfl rfl rfl (Nat.le_refl _)
  apply away
  intro c
  cases hTurn <;> simp [*]

/- The park ends, so that nothing is left to watch. -/
theorem ended
    (hWatched : s.Watched)
    (hPark : t.park = { s.park with since := none })
    (hWatcher : t.watcher = s.watcher)
    (hNow : t.now = s.now) :
    t.Watched where
  current := by
    intro since hSince
    rw [hPark] at hSince
    cases hSince
  waiting := by
    intro _
    left
    rw [hPark]
  sleeping := by
    rw [hPark, hWatcher, hNow]
    intro park hSleeping
    rcases hWatched.sleeping park hSleeping with
      ⟨since, hSince, hPast, -⟩
    refine ⟨since, hSince, hPast, ?_⟩
    intro later hLater
    cases hLater

/- The watcher's steps look at them. -/
theorem watch
    {watcher : Watcher}
    {es : List Entry}
    (hWatched : s.Watched)
    (hWatch : Watch s e watcher es) :
    Watched
      { s with watcher := watcher, log := s.log ++ es } := by
  have hCurrent :
      ∀ since, s.park.since = some since →
        Lasts (s.log ++ es) s.park.seq since ∧
          since ≤ s.now := by
    intro since hSince
    rcases hWatched.current since hSince with ⟨hLasts, hPast⟩
    refine ⟨?_, hPast⟩
    cases hWatch with
    | stalled => exact hLasts.snoc
    | called | free | parked | woken | changed | dropped =>
        rw [List.append_nil]
        exact hLasts
  refine ⟨hCurrent, ?_, ?_⟩
  · intro hWaiting
    dsimp only at hWaiting
    cases hWatch with
    | free notified hWatcher hSince => exact Or.inl hSince
    | called | parked | woken | changed | stalled | dropped =>
        cases hWaiting
  · intro park hSleeping
    dsimp only at hSleeping
    cases hWatch with
    | parked notified since hWatcher hSince =>
        cases hSleeping
        refine ⟨since, hSince,
          (hWatched.current since hSince).2, ?_⟩
        intro later hLater
        exact Nat.le_of_eq
          (Option.some.inj (hSince.symm.trans hLater))
    | called | free | woken | changed | stalled | dropped =>
        cases hSleeping

/- Every step keeps the invariant. -/
theorem step
    (hWatched : s.Watched)
    (hMove : Move s e t) :
    t.Watched := by
  cases hMove with
  | turn e pump hTurn => exact hWatched.turn hTurn
  | began c hPump =>
      refine ⟨?_, ?_, ?_⟩
      · intro since hSince
        cases hSince
        exact ⟨⟨s.log, [], rfl, by simp⟩, (Nat.le_refl _)⟩
      · intro _
        exact Or.inr ⟨c, rfl⟩
      · intro park hSleeping
        rcases hWatched.sleeping park hSleeping with
          ⟨since, hSince, hPast, -⟩
        refine ⟨since, hSince, hPast, ?_⟩
        intro later hLater
        cases hLater
        exact hPast
  | announced c hPump =>
      refine ⟨hWatched.current, ?_, ?_⟩
      · intro hWaiting
        exact absurd hWaiting Watcher.of_wake_waiting
      · intro park hSleeping
        exact hWatched.sleeping park
          (Watcher.of_wake_sleeping hSleeping)
  | resumed c n permits hPump hTaken =>
      exact hWatched.ended rfl rfl rfl
  | withdrawn c hPump | cancelled c hPump =>
      exact hWatched.ended rfl rfl rfl
  | watch e watcher es hWatch => exact hWatched.watch hWatch
  | passes d =>
      exact hWatched.same rfl rfl rfl (Nat.le_add_right _ _) id
  | queued | exiting | received | wrote | wroteFree | exits =>
      exact hWatched.same rfl rfl rfl (Nat.le_refl _) id
  | read | acquired | requested | taken | dropped | sent
  | lost =>
      exact hWatched.same rfl rfl rfl (Nat.le_refl _)
        (away (fun _ => by simp [*]))

/- The invariant holds in every reachable state. -/
theorem of_reachable
    (hReach : machine.Reachable s) :
    s.Watched := by
  refine invariant_of_reachable ?_
    (fun _ _ _ hWatched hMove => hWatched.step hMove) hReach
  refine ⟨?_, ?_, ?_⟩
  · intro since hSince
    cases hSince
  · intro hWaiting
    cases hWaiting
  · intro park hSleeping
    cases hSleeping

end Watched

------------------------------------------------------------
-- Looking Again
------------------------------------------------------------

/- A step that keeps the park, and the call of `stalled`. -/
def Undisturbed (s : Output) (e : Event) : Prop :=
  e ≠ .unwatch ∧ ∀ t, machine.step s e t → t.park = s.park

/- The looks until the watcher resolves on the park. -/
def left (s : Output) : Nat :=
  match s.watcher with
  | .idle => 4
  | .waiting _ => 3
  | .looking _ => 2
  | .sleeping park => if park = s.park then 1 else 3
  | .stalled => 0

/- Four looks are needed only before the call. -/
theorem left_le_three
    (hWatcher : s.watcher ≠ .idle) :
    s.left ≤ 3 := by
  unfold left
  split
  · contradiction
  · omega
  · omega
  · split <;> omega
  · omega

/- The count depends on park and watcher alone. -/
theorem left_congr
    (hPark : t.park = s.park)
    (hWatcher : t.watcher = s.watcher) :
    t.left = s.left := by
  unfold left
  rw [hPark, hWatcher]

/-
  A look is a step of the watcher, unless the process has
  ended.
-/
theorem step_look_iff :
    machine.step s .look t ↔
      s.exited = false ∧ s.watcherNext = some t := by
  change s.next .look = some t ↔ _
  unfold next
  cases s.exited <;> simp

/- Another step leaves the watcher, or wakes it. -/
theorem watcher_next
    (hStep : machine.step s e t)
    (hWatcher : s.watcher ≠ .idle)
    (hLook : e ≠ .look)
    (hUnwatch : e ≠ .unwatch) :
    t.watcher = s.watcher ∨ t.watcher = s.watcher.wake := by
  have hMove := move_of_next hStep
  cases hMove with
  | announced => exact Or.inr rfl
  | watch e watcher es hWatch =>
      cases hWatch <;> contradiction
  | _ => exact Or.inl rfl

/-
  Other steps do not put it off, as long as the park goes
  on.
-/
theorem left_next
    (hStep : machine.step s e t)
    (hPark : t.park = s.park)
    (hWatcher : s.watcher ≠ .idle)
    (hLook : e ≠ .look)
    (hUnwatch : e ≠ .unwatch) :
    t.watcher ≠ .idle ∧ t.left = s.left := by
  rcases watcher_next hStep hWatcher hLook hUnwatch with
    hSame | hWoken
  · rw [hSame]
    exact ⟨hWatcher, left_congr hPark hSame⟩
  · unfold left
    rw [hWoken, hPark]
    cases hOld : s.watcher <;> simp_all [Watcher.wake]

/- A look brings the watcher nearer to the park. -/
theorem left_look
    {since : Nat}
    (hStep : machine.step s .look t)
    (hSince : s.park.since = some since) :
    t.watcher ≠ .idle ∧ t.left + 1 ≤ s.left := by
  have hNext := (step_look_iff.mp hStep).2
  unfold watcherNext at hNext
  unfold left
  split at hNext
  · rename_i notified hWatcher
    rw [hSince] at hNext
    cases hNext
    rw [hWatcher]
    simp
  · rename_i hWatcher
    cases hNext
    rw [hWatcher]
    simp
  · rename_i park hWatcher
    split at hNext
    · cases hNext
    · split at hNext
      · split at hNext
        · rename_i hPark
          cases hNext
          rw [hWatcher]
          simp [hPark]
        · rename_i hPark
          cases hNext
          rw [hWatcher]
          simp [Ne.symm hPark]
      · cases hNext
  · cases hNext

/-
  Once the park has lasted for the grace, the watcher can look
  until it has resolved.
-/
theorem exists_look
    {since : Nat}
    (hWatched : s.Watched)
    (hRunning : s.exited = false)
    (hSince : s.park.since = some since)
    (hGrace : since + stallGrace ≤ s.now)
    (hWatcher : s.watcher ≠ .idle)
    (hQuiet : ¬ s.Announces) :
    s.watcher = .stalled ∨ ∃ t, machine.step s .look t := by
  have hLook :
      ∀ t, s.watcherNext = some t →
        ∃ t, machine.step s .look t :=
    fun t hNext => ⟨t, step_look_iff.mpr ⟨hRunning, hNext⟩⟩
  cases hOld : s.watcher with
  | idle => exact absurd hOld hWatcher
  | stalled => exact Or.inl rfl
  | looking notified =>
      right
      apply hLook { s with watcher := .sleeping s.park }
      simp only [watcherNext, hOld, hSince]
  | waiting notified =>
      right
      cases notified with
      | true =>
          apply hLook { s with watcher := .looking false }
          simp only [watcherNext, hOld]
      | false =>
          rcases hWatched.waiting hOld with hNone | hAnnounces
          · rw [hSince] at hNone
            cases hNone
          · exact absurd hAnnounces hQuiet
  | sleeping park =>
      right
      rcases hWatched.sleeping park hOld with
        ⟨begun, hBegun, -, hLater⟩
      -- The park it sleeps on is no younger, so it wakes.
      have hWakes : begun + stallGrace ≤ s.now := by
        have hLe := hLater since hSince
        omega
      by_cases hPark : s.park = park
      · apply hLook
          { s with
            watcher := .stalled
            log := s.log ++ [.stalled park.seq s.now] }
        simp only [watcherNext, hOld, hBegun]
        rw [if_pos hWakes, if_pos hPark]
      · apply hLook { s with watcher := .looking false }
        simp only [watcherNext, hOld, hBegun]
        rw [if_pos hWakes, if_neg hPark]

/- Time does not run back. -/
theorem now_le_of_step
    (hStep : machine.step s e t) :
    s.now ≤ t.now := by
  have hMove := move_of_next hStep
  cases hMove with
  | passes d => exact Nat.le_add_right _ _
  | _ => exact Nat.le_refl _

/- Along a run that keeps the park, the looks are counted. -/
theorem looks_of_run
    {since : Nat} {es : List Event}
    (hSince : s.park.since = some since)
    (hWatcher : s.watcher ≠ .idle)
    (hRun : (machine.restrict Undisturbed).Run s es t) :
    t.park = s.park ∧ s.now ≤ t.now ∧ t.watcher ≠ .idle ∧
      es.count .look + t.left ≤ s.left := by
  apply hRun.history_invariant
    (I := fun es t =>
      t.park = s.park ∧ s.now ≤ t.now ∧ t.watcher ≠ .idle ∧
        es.count .look + t.left ≤ s.left)
  · intro es t e u hI hStep
    rcases hI with ⟨hPark, hNow, hGoing, hCount⟩
    rcases hStep with ⟨hStep, hKept, hSame⟩
    have hSame := hSame u hStep
    refine ⟨hSame.trans hPark,
      Nat.le_trans hNow (now_le_of_step hStep), ?_⟩
    by_cases hLook : e = .look
    · subst hLook
      rw [← hPark] at hSince
      rcases left_look hStep hSince with ⟨hNext, hLeft⟩
      refine ⟨hNext, ?_⟩
      rw [List.count_append, List.count_singleton_self]
      omega
    · rcases left_next hStep hSame hGoing hLook hKept with
        ⟨hNext, hLeft⟩
      refine ⟨hNext, ?_⟩
      rw [List.count_append, List.count_singleton,
        if_neg (by simpa using hLook), hLeft]
      omega
  · exact ⟨rfl, Nat.le_refl _, hWatcher, by simp⟩

------------------------------------------------------------
-- Stalls Are Exact
------------------------------------------------------------

/-
  The law of `stalled`.  It resolves only on a park that goes
  on since its grace, whichever parks there were before.  A
  park that begins while it waits wakes it.  While the park
  goes on, it can look until it has resolved, and three looks
  are enough.
-/
structure StallExact (s : Output) : Prop where
  lasting :
    ∀ e t, machine.step s e t → t.watcher = .stalled →
      s.watcher ≠ .stalled →
        t.log = s.log ++ [.stalled s.park.seq s.now] ∧
          ∃ since, Lasts s.log s.park.seq since ∧
            since + stallGrace ≤ s.now
  notices :
    ∀ since, s.park.since = some since →
      s.watcher = .waiting false → s.exited = false →
        ∃ t, machine.step s .pump t ∧ t.park = s.park ∧
          t.watcher = .waiting true
  resolves :
    ∀ since es t, s.park.since = some since →
      since + stallGrace ≤ s.now → s.watcher ≠ .idle →
        (machine.restrict Undisturbed).Run s es t →
          es.count .look ≤ 3 ∧
            (t.watcher = .stalled ∨ t.exited = true ∨
              t.Announces ∨ ∃ u, machine.step t .look u)

/- The law holds in every reachable state. -/
theorem stall_exact
    (hReach : machine.Reachable s) :
    s.StallExact := by
  have hWatched := Watched.of_reachable hReach
  constructor
  case lasting =>
    intro e t hStep hStalled hNot
    have hMove := move_of_next hStep
    cases hMove with
    | announced c hPump =>
        exact absurd (Watcher.of_wake_stalled hStalled) hNot
    | watch e watcher es hWatch =>
        cases hWatch with
        | stalled since hWatcher hSince hGrace =>
            exact ⟨rfl, since,
              (hWatched.current since hSince).1, hGrace⟩
        | _ => cases hStalled
    | _ => exact absurd hStalled hNot
  case notices =>
    intro since hSince hWaiting hRunning
    rcases hWatched.waiting hWaiting with hNone | ⟨c, hPump⟩
    · rw [hSince] at hNone
      cases hNone
    · have hStep :
          s.next .pump =
            some
              { s with
                watcher := s.watcher.wake
                pump := .requesting c } := by
        unfold next pumpNext
        rw [hRunning, if_neg (by decide), hPump]
      refine ⟨_, hStep, rfl, ?_⟩
      rw [hWaiting]
      rfl
  case resolves =>
    intro since es t hSince hGrace hWatcher hRun
    rcases looks_of_run hSince hWatcher hRun with
      ⟨hPark, hNow, hGoing, hCount⟩
    have hFew := left_le_three hWatcher
    refine ⟨by omega, ?_⟩
    rcases hReach with ⟨s₀, es₀, hStart, hRun₀⟩
    have hLater : t.Watched :=
      Watched.of_reachable
        ⟨s₀, es₀ ++ es, hStart, hRun₀.append hRun.of_restrict⟩
    cases hExited : t.exited with
    | true => exact Or.inr (Or.inl rfl)
    | false =>
        by_cases hAnnounces : t.Announces
        · exact Or.inr (Or.inr (Or.inl hAnnounces))
        · rcases exists_look hLater hExited (hPark ▸ hSince)
            (Nat.le_trans hGrace hNow) hGoing hAnnounces with
            hStalled | hLook
          · exact Or.inl hStalled
          · exact Or.inr (Or.inr (Or.inr hLook))

/- A call behind a pump that is parked from its start on. -/
theorem stall_exact_parked :
    ∃ s,
      machine.Run parkedBehind
        [.watch, .look, .tick stallGrace, .look] s ∧
        s.watcher = .stalled ∧ s.StallExact := by
  have hRun :
      machine.Run parkedBehind
        [.watch, .look, .tick stallGrace, .look]
        { parkedBehind with
          watcher := .stalled
          now := stallGrace
          log := [.begun 1 0, .stalled 1 stallGrace] } :=
    Machine.Run.of_foldlM rfl
  rcases reachable_parkedBehind with ⟨s₀, es, hStart, hFirst⟩
  exact ⟨_, hRun, rfl,
    stall_exact ⟨s₀, _, hStart, hFirst.append hRun⟩⟩

end Output

end Budget

end Proxy

end Ferrex
