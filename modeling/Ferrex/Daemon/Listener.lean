import Ferrex.Daemon.Spawn

/-
  The spawn lock: as long as every daemon gets its PID file
  written, no step removes the socket file of a daemon that
  listens, and one daemon at most listens.

  Main declarations:
    * `RunDir.Bars`, `RunDir.Inv`
    * `RunDir.Inv.proxyNext`, `RunDir.Inv.daemonNext`
    * `spawn_exclusive`
-/

------------------------------------------------------------
-- Stages
------------------------------------------------------------

namespace Ferrex

namespace Daemon

namespace Spawn

open Mutex

namespace ProxyStage

variable {stage : ProxyStage} {child : Nat}

/- A proxy that waits for a child has the lock. -/
theorem locked_of_child
    (hChild : stage.child = some child) :
    stage.locked = true ∧ stage.stale = false := by
  cases stage <;> first | exact ⟨rfl, rfl⟩ | cases hChild

/- A proxy that has found a stale socket has the lock. -/
theorem locked_of_stale
    (hStale : stage.stale = true) :
    stage.locked = true ∧ stage.child = none := by
  cases stage <;> first | exact ⟨rfl, rfl⟩ | cases hStale

/- A proxy that is done holds nothing. -/
theorem ended_stage (answer : Option Answer) :
    (ended answer).locked = false ∧
      (ended answer).child = none := by
  cases answer <;> exact ⟨rfl, rfl⟩

end ProxyStage

namespace DaemonStage

/- The socket of the daemon is bound. -/
def bound : DaemonStage → Bool
| .listen => true
| stage => stage.listening

/- What a step of a daemon that listens or does not does. -/
def flows (stage stage' : DaemonStage) : Bool :=
  (!stage'.starting || stage.starting) &&
    (!stage'.bound || stage.bound) &&
      (!stage'.finishing || stage.finishing ||
        stage.listening)

/- The daemon failed to write its PID file. -/
def failing : DaemonStage → Bool
| .checkSocket finishing _ => !finishing
| .removeSocket finishing => !finishing
| _ => false

variable {stage : DaemonStage}

/- A daemon that listens has bound its socket. -/
theorem bound_of_listening
    (hListening : stage.listening = true) :
    stage.bound = true := by
  cases stage <;> first | exact hListening | cases hListening

/- One that has bound it listens, or is about to. -/
theorem starting_or_listening
    (hBound : stage.bound = true) :
    stage.starting = true ∨ stage.listening = true := by
  cases stage <;> first
    | exact Or.inl rfl
    | exact Or.inr hBound

/-
  The end of a daemon is under the lock, after it has
  stopped to listen.
-/
theorem locked_of_finishing
    (hFinishing : stage.finishing = true) :
    stage.locked = true ∧ stage.listening = false := by
  cases stage with
  | checkSocket finishing socketId =>
      cases hFinishing
      exact ⟨rfl, rfl⟩
  | removeSocket finishing =>
      cases hFinishing
      exact ⟨rfl, rfl⟩
  | _ => first | exact ⟨rfl, rfl⟩ | cases hFinishing

end DaemonStage

------------------------------------------------------------
-- The Invariant
------------------------------------------------------------

namespace RunDir

/- A process that is inside the lock. -/
def Inside (s : RunDir) : Party → Prop
| .proxy p => (s.proxies p).locked = true
| .daemon d => (s.daemons d).locked = true

/-
  While this party holds the lock, the daemon does not listen:
  the party has found the socket stale, it waits for another
  daemon, or it has just dropped the listener itself.
-/
def Bars (s : RunDir) : Party → Nat → Prop
| .proxy p, d =>
    (s.proxies p).stale = true ∨
      ∃ child, (s.proxies p).child = some child ∧ d ≠ child
| .daemon e, _ => (s.daemons e).finishing = true

/-
  Whoever is inside has the lock, a daemon that has yet to
  listen is the child of a proxy that waits for it, one that
  has bound a socket has its file in place, and nobody listens
  who is barred.
-/
structure Inv (s : RunDir) : Prop where
  guarded : Guarded s.lock s.Inside
  unborn : ∀ d, s.nextDaemon ≤ d → s.daemons d = .unborn
  children :
    ∀ p child, (s.proxies p).child = some child →
      child < s.nextDaemon
  starting :
    ∀ d, (s.daemons d).starting = true →
      ∃ p, (s.proxies p).child = some d
  bound :
    ∀ d, (s.daemons d).bound = true →
      ∃ socketId, s.socket = some ⟨socketId, some d⟩
  barred :
    ∀ party d, s.Bars party d →
      (s.daemons d).listening = false
  written : ∀ d, (s.daemons d).failing = false

variable {s t : RunDir} {p d : Nat}

/-
  A directory in which nothing runs satisfies the invariant.
-/
theorem Initial.inv (hInitial : s.Initial) : s.Inv where
  guarded party := by
    rw [hInitial.lock]
    constructor
    · intro h
      cases party with
      | proxy p =>
          change (s.proxies p).locked = true at h
          rw [hInitial.proxies] at h
          cases h
      | daemon d =>
          change (s.daemons d).locked = true at h
          rw [hInitial.daemons] at h
          cases h
    · intro h
      cases h
  unborn d _ := hInitial.daemons d
  children p child h := by
    rw [hInitial.proxies] at h
    cases h
  starting d h := by
    rw [hInitial.daemons] at h
    cases h
  bound d h := by
    rw [hInitial.daemons] at h
    cases h
  barred _ d _ := by
    rw [hInitial.daemons]
    rfl
  written d := by
    rw [hInitial.daemons]
    rfl

namespace Inv

/- The listener of a directory is the one that listens. -/
theorem listener_of_listening
    (hInv : s.Inv)
    (hListening : (s.daemons d).listening = true) :
    s.listener = some d := by
  rcases hInv.bound d
    (DaemonStage.bound_of_listening hListening) with
    ⟨socketId, hSocket⟩
  unfold listener
  rw [hSocket]
  simp [Option.filter, hListening]

/- One daemon at most listens. -/
theorem listening_unique
    {e : Nat}
    (hInv : s.Inv)
    (hFirst : (s.daemons d).listening = true)
    (hSecond : (s.daemons e).listening = true) :
    d = e := by
  have hListener := hInv.listener_of_listening hFirst
  rw [hInv.listener_of_listening hSecond] at hListener
  exact (Option.some.inj hListener).symm

/- A connect that finds the socket stale. -/
theorem nobody_listening
    {e : IoError}
    (hInv : s.Inv)
    (hFails : s.connectFails e = true)
    (hStale : classifyConnectError e = .stale)
    (d : Nat) :
    (s.daemons d).listening = false := by
  unfold connectFails at hFails
  rw [hStale] at hFails
  have hNone : s.listener.isNone = true :=
    (Bool.and_eq_true _ _ ▸ hFails).1
  by_contra hListening
  rw [hInv.listener_of_listening (by simpa using hListening)]
    at hNone
  cases hNone

/- The proxy that waits for a daemon that is starting. -/
theorem spawner_unique
    {party : Party}
    (hInv : s.Inv)
    (hStarting : (s.daemons d).starting = true)
    (hInside : s.Inside party) :
    ∃ p, party = .proxy p ∧ (s.proxies p).child = some d := by
  rcases hInv.starting d hStarting with ⟨p, hChild⟩
  refine ⟨p, ?_, hChild⟩
  have hSpawner : s.Inside (.proxy p) :=
    (ProxyStage.locked_of_child hChild).1
  exact hInv.guarded.unique hInside hSpawner

/- Nobody has a socket while a party bars all daemons. -/
theorem nobody_bound
    {party : Party}
    (hInv : s.Inv)
    (hInside : s.Inside party)
    (hBars : ∀ d, s.Bars party d)
    (hChild :
      ∀ p, party = .proxy p → (s.proxies p).child = none)
    (d : Nat) :
    (s.daemons d).bound = false := by
  by_contra hBound
  rcases DaemonStage.starting_or_listening
    (by simpa using hBound) with hStarting | hListening
  · rcases hInv.spawner_unique hStarting hInside with
      ⟨p, hParty, hSpawner⟩
    rw [hChild p hParty] at hSpawner
    cases hSpawner
  · rw [hInv.barred party d (hBars d)] at hListening
    cases hListening

/- Only a process inside the lock bars another. -/
theorem inside_of_bars
    {party : Party}
    (hBars : s.Bars party d) :
    s.Inside party := by
  cases party with
  | proxy p =>
      rcases hBars with hStale | ⟨child, hChild, _⟩
      · exact (ProxyStage.locked_of_stale hStale).1
      · exact (ProxyStage.locked_of_child hChild).1
  | daemon e => exact (DaemonStage.locked_of_finishing hBars).1

/- A daemon that is starting may go on to listen. -/
theorem not_bars
    (hInv : s.Inv)
    (hStarting : (s.daemons d).starting = true)
    (party : Party) :
    ¬ s.Bars party d := by
  intro hBars
  rcases hInv.spawner_unique hStarting
    (inside_of_bars hBars) with ⟨p, rfl, hChild⟩
  rcases hBars with hStale | ⟨child, hOther, hNe⟩
  · rw [(ProxyStage.locked_of_stale hStale).2] at hChild
    cases hChild
  · rw [hChild] at hOther
    exact hNe (Option.some.inj hOther)

------------------------------------------------------------
-- Steps of One Party
------------------------------------------------------------

/- A step of a proxy that leaves the daemons alone. -/
theorem ofProxy
    {stage : ProxyStage}
    (hInv : s.Inv)
    (hProxies :
      t.proxies = Function.update s.proxies p stage)
    (hDaemons : t.daemons = s.daemons)
    (hNext : s.nextDaemon ≤ t.nextDaemon)
    (hMoves :
      Moves s.lock s.Inside t.Inside (.proxy p) t.lock)
    (hSocket :
      t.socket = s.socket ∨
        ∀ d, (s.daemons d).bound = false)
    (hKeeps :
      ∀ child, (s.proxies p).child = some child →
        stage.child = some child ∨
          (s.daemons child).starting = false)
    (hChild :
      ∀ child, stage.child = some child →
        child < t.nextDaemon)
    (hStale :
      stage.stale = true →
        ∀ d, (s.daemons d).listening = false)
    (hOthers :
      ∀ child, stage.child = some child →
        ∀ d, d ≠ child → (s.daemons d).listening = false) :
    t.Inv where
  guarded := by
    refine hInv.guarded.moves (fun party hOther => ?_) hMoves
    cases party with
    | proxy q =>
        have hNe : q ≠ p := fun h => hOther (by rw [h])
        unfold Inside
        simp only [hProxies, Function.update_of_ne hNe]
    | daemon d =>
        unfold Inside
        simp only [hDaemons]
  unborn d hd := by
    rw [hDaemons]
    exact hInv.unborn d (Nat.le_trans hNext hd)
  children q child h := by
    rw [hProxies, Function.update_apply] at h
    split at h
    · exact hChild child h
    · exact Nat.lt_of_lt_of_le (hInv.children q child h) hNext
  starting d h := by
    rw [hDaemons] at h
    rcases hInv.starting d h with ⟨q, hSpawner⟩
    refine ⟨q, ?_⟩
    rw [hProxies, Function.update_apply]
    split
    · rename_i hEq
      rw [hEq] at hSpawner
      rcases hKeeps d hSpawner with hSame | hDone
      · exact hSame
      · rw [hDone] at h
        cases h
    · exact hSpawner
  bound d h := by
    rw [hDaemons] at h
    rcases hSocket with hSame | hNobody
    · rw [hSame]
      exact hInv.bound d h
    · rw [hNobody d] at h
      cases h
  barred party d h := by
    rw [hDaemons]
    cases party with
    | proxy q =>
        by_cases hEq : q = p
        · rw [hEq] at h
          unfold Bars at h
          simp only [hProxies, Function.update_self] at h
          rcases h with hStale' | ⟨child, hSpawned, hNe⟩
          · exact hStale hStale' d
          · exact hOthers child hSpawned d hNe
        · refine hInv.barred (.proxy q) d ?_
          unfold Bars at h ⊢
          simpa only [hProxies, Function.update_of_ne hEq]
            using h
    | daemon e =>
        refine hInv.barred (.daemon e) d ?_
        unfold Bars at h ⊢
        simpa only [hDaemons] using h
  written d := by
    rw [hDaemons]
    exact hInv.written d

/- A step of a daemon that leaves the proxies alone. -/
theorem ofDaemon
    {stage : DaemonStage}
    (hInv : s.Inv)
    (hDaemons :
      t.daemons = Function.update s.daemons d stage)
    (hProxies : t.proxies = s.proxies)
    (hNext : t.nextDaemon = s.nextDaemon)
    (hBorn : d < s.nextDaemon)
    (hMoves :
      Moves s.lock s.Inside t.Inside (.daemon d) t.lock)
    (hSocket :
      t.socket = s.socket ∨
        ∀ e, (s.daemons e).bound = false)
    (hStarting :
      stage.starting = true →
        ∃ p, (s.proxies p).child = some d)
    (hBound :
      stage.bound = true →
        ∃ socketId, t.socket = some ⟨socketId, some d⟩)
    (hListening :
      stage.listening = true →
        (s.daemons d).starting = true ∨
          (s.daemons d).listening = true)
    (hFinishing :
      stage.finishing = true →
        ∀ e, e ≠ d → (s.daemons e).listening = false)
    (hWritten : stage.failing = false) :
    t.Inv where
  guarded := by
    refine hInv.guarded.moves (fun party hOther => ?_) hMoves
    cases party with
    | proxy q =>
        unfold Inside
        simp only [hProxies]
    | daemon e =>
        have hNe : e ≠ d := fun h => hOther (by rw [h])
        unfold Inside
        simp only [hDaemons, Function.update_of_ne hNe]
  unborn e he := by
    rw [hNext] at he
    rw [hDaemons, Function.update_of_ne (by omega)]
    exact hInv.unborn e he
  children q child h := by
    rw [hProxies] at h
    rw [hNext]
    exact hInv.children q child h
  starting e h := by
    rw [hDaemons, Function.update_apply] at h
    rw [hProxies]
    split at h
    · rename_i hEq
      rw [hEq]
      exact hStarting h
    · exact hInv.starting e h
  bound e h := by
    rw [hDaemons, Function.update_apply] at h
    split at h
    · rename_i hEq
      rw [hEq]
      exact hBound h
    · rcases hSocket with hSame | hNobody
      · rw [hSame]
        exact hInv.bound e h
      · rw [hNobody e] at h
        cases h
  barred party e h := by
    have hOld :
        s.Bars party e ∨ party = .daemon d := by
      cases party with
      | proxy q =>
          unfold Bars at h ⊢
          rw [hProxies] at h
          exact Or.inl h
      | daemon f =>
          by_cases hEq : f = d
          · exact Or.inr (by rw [hEq])
          · change (t.daemons f).finishing = true at h
            rw [hDaemons, Function.update_of_ne hEq] at h
            exact Or.inl h
    rw [hDaemons, Function.update_apply]
    by_contra hTrue
    rcases hOld with hOld | rfl
    · have hClear := hInv.barred party e hOld
      split at hTrue
      · rename_i hEq
        rw [hEq] at hOld hClear
        rcases hListening (by simpa using hTrue) with
          hStart | hListen
        · exact hInv.not_bars hStart party hOld
        · rw [hClear] at hListen
          cases hListen
      · exact hTrue hClear
    · change (t.daemons d).finishing = true at h
      rw [hDaemons, Function.update_self] at h
      split at hTrue
      · exact hTrue (DaemonStage.locked_of_finishing h).2
      · exact hTrue (hFinishing h e ‹_›)
  written e := by
    rw [hDaemons, Function.update_apply]
    split
    · exact hWritten
    · exact hInv.written e

------------------------------------------------------------
-- Steps of Proxies
------------------------------------------------------------

section Proxies

variable {stage : ProxyStage}

/- A proxy moves on inside the lock. -/
theorem insideProxy
    (hInv : s.Inv)
    (hLocked : (s.proxies p).locked = true)
    (hIn : stage.locked = true)
    (hKeeps :
      ∀ child, (s.proxies p).child = some child →
        stage.child = some child ∨
          (s.daemons child).starting = false)
    (hChild :
      ∀ child, stage.child = some child →
        (s.proxies p).child = some child)
    (hStale :
      stage.stale = true →
        ∀ d, (s.daemons d).listening = false) :
    (s.atProxy p stage).Inv := by
  refine hInv.ofProxy rfl rfl (Nat.le_refl _) (.keep ?_)
    (Or.inl rfl) hKeeps
    (fun c h => hInv.children p c (hChild c h)) hStale ?_
  · change (Function.update s.proxies p stage p).locked = true ↔
      (s.proxies p).locked = true
    rw [Function.update_self, hIn, hLocked]
  · intro c h d hNe
    exact hInv.barred (.proxy p) d
      (Or.inr ⟨c, hChild c h, hNe⟩)

/- Or outside of it. -/
theorem outsideProxy
    (hInv : s.Inv)
    (hLocked : (s.proxies p).locked = false)
    (hOut : stage.locked = false) :
    (s.atProxy p stage).Inv := by
  refine hInv.ofProxy rfl rfl (Nat.le_refl _) (.keep ?_)
    (Or.inl rfl) ?_ ?_ ?_ ?_
  · change (Function.update s.proxies p stage p).locked = true ↔
      (s.proxies p).locked = true
    rw [Function.update_self, hOut, hLocked]
  · intro c h
    rw [(ProxyStage.locked_of_child h).1] at hLocked
    cases hLocked
  · intro c h
    rw [(ProxyStage.locked_of_child h).1] at hOut
    cases hOut
  · intro h
    rw [(ProxyStage.locked_of_stale h).1] at hOut
    cases hOut
  · intro c h
    rw [(ProxyStage.locked_of_child h).1] at hOut
    cases hOut

/- A proxy that is inside and has no child. -/
theorem childless
    (hInv : s.Inv)
    (hLocked : (s.proxies p).locked = true)
    (hNone : (s.proxies p).child = none)
    (hIn : stage.locked = true)
    (hNone' : stage.child = none)
    (hStale :
      stage.stale = true →
        ∀ d, (s.daemons d).listening = false) :
    (s.atProxy p stage).Inv := by
  refine hInv.insideProxy hLocked hIn (fun c h => ?_)
    (fun c h => ?_) hStale
  · rw [hNone] at h
    cases h
  · rw [hNone'] at h
    cases h

/- A proxy may wait on for the same child. -/
theorem sameChild
    {child : Nat}
    (hInv : s.Inv)
    (hChild : (s.proxies p).child = some child)
    (hChild' : stage.child = some child) :
    (s.atProxy p stage).Inv := by
  refine hInv.insideProxy
    (ProxyStage.locked_of_child hChild).1
    (ProxyStage.locked_of_child hChild').1
    (fun c h => Or.inl ?_) (fun c h => ?_) (fun h => ?_)
  · rw [hChild', ← hChild, h]
  · rw [hChild, ← hChild', h]
  · rw [(ProxyStage.locked_of_child hChild').2] at h
    cases h

/- Where the socket is stale, nobody listens. -/
theorem nobody_of_stale
    (hInv : s.Inv)
    (hStale : (s.proxies p).stale = true)
    (d : Nat) :
    (s.daemons d).listening = false :=
  hInv.barred (.proxy p) d (Or.inl hStale)

/- A proxy takes the lock when it is free. -/
theorem takeProxy
    (hInv : s.Inv)
    (hStage : s.proxies p = .acquireLock)
    (hFree : s.lock = none) :
    ((s.locking (.proxy p)).atProxy p .reconnect).Inv := by
  refine hInv.ofProxy rfl rfl (Nat.le_refl _)
    (.take hFree ?_) (Or.inl rfl) (fun c h => ?_)
    (fun c h => by cases h) (fun h => by cases h)
    (fun c h => by cases h)
  · change (Function.update s.proxies p _ p).locked = true
    rw [Function.update_self]
    rfl
  · rw [hStage] at h
    cases h

/- A proxy lets go of the lock, with or without answer. -/
theorem releaseProxy
    {answer : Option Answer}
    (hInv : s.Inv)
    (hStage : s.proxies p = .unlock answer) :
    (s.unlocking.atProxy p (.ended answer)).Inv := by
  have hEnded := ProxyStage.ended_stage answer
  refine hInv.ofProxy rfl rfl (Nat.le_refl _)
    (.release ?_ ?_) (Or.inl rfl) (fun c h => ?_)
    (fun c h => ?_) (fun h => ?_) (fun c h => ?_)
  · change (s.proxies p).locked = true
    rw [hStage]
    rfl
  · change ¬ (Function.update s.proxies p _ p).locked = true
    rw [Function.update_self, hEnded.1]
    simp
  · rw [hStage] at h
    cases h
  · rw [hEnded.2] at h
    cases h
  · rw [(ProxyStage.locked_of_stale h).1] at hEnded
    cases hEnded.1
  · rw [hEnded.2] at h
    cases h

/- The proxy removes a socket that it has found stale. -/
theorem removeStaleSocket
    (hInv : s.Inv)
    (hStage : s.proxies p = .removeStaleSocket) :
    (s.withoutSocket.atProxy p .openLog).Inv := by
  have hLocked : (s.proxies p).locked = true := by
    rw [hStage]
    rfl
  have hInside : s.Inside (.proxy p) := hLocked
  have hBars : ∀ d, s.Bars (.proxy p) d := by
    intro d
    refine Or.inl ?_
    rw [hStage]
    rfl
  refine hInv.ofProxy rfl rfl (Nat.le_refl _) (.keep ?_)
    (Or.inr (hInv.nobody_bound hInside hBars ?_))
    (fun c h => ?_) (fun c h => by cases h)
    (fun _ d => hInv.barred _ d (hBars d))
    (fun c h => by cases h)
  · change (Function.update s.proxies p _ p).locked = true ↔
      (s.proxies p).locked = true
    rw [Function.update_self, hLocked]
    rfl
  · intro q hSame
    cases hSame
    rw [hStage]
    rfl
  · rw [hStage] at h
    cases h

end Proxies

------------------------------------------------------------
-- Steps of Daemons
------------------------------------------------------------

section Daemons

variable {stage : DaemonStage}

/- Only daemons that were started have a stage. -/
theorem born
    (hInv : s.Inv)
    (hStage : s.daemons d ≠ .unborn) :
    d < s.nextDaemon := by
  by_contra hLe
  exact hStage (hInv.unborn d (by omega))

/- The step of the invariant for a daemon. -/
theorem moveDaemon
    {lock : Option Party} {pidFile : Option (Option Nat)}
    (hInv : s.Inv)
    (hBorn : s.daemons d ≠ .unborn)
    (hMoves :
      Moves s.lock s.Inside (s.atDaemon d stage).Inside
        (.daemon d) lock)
    (hFlows : (s.daemons d).flows stage = true)
    (hWritten : stage.failing = false) :
    ({ s with lock := lock, pidFile := pidFile }.atDaemon d
      stage).Inv := by
  unfold DaemonStage.flows at hFlows
  simp only [Bool.and_eq_true, Bool.or_eq_true,
    Bool.not_eq_true'] at hFlows
  rcases hFlows with ⟨⟨hStarting, hBound⟩, hFinishing⟩
  refine hInv.ofDaemon rfl rfl rfl (hInv.born hBorn) hMoves
    (Or.inl rfl) (fun h => ?_) (fun h => ?_) (fun h => ?_)
    (fun h e hNe => ?_) hWritten
  · rw [h] at hStarting
    exact hInv.starting d (hStarting.resolve_left (by simp))
  · rw [h] at hBound
    exact hInv.bound d (hBound.resolve_left (by simp))
  · rw [DaemonStage.bound_of_listening h] at hBound
    exact DaemonStage.starting_or_listening
      (hBound.resolve_left (by simp))
  · rw [h] at hFinishing
    rcases hFinishing with (hFalse | hOld) | hListening
    · cases hFalse
    · exact hInv.barred (.daemon d) e hOld
    · by_contra hTrue
      exact hNe (hInv.listening_unique (by simpa using hTrue)
        hListening)

/- A daemon stays where it is, inside or outside. -/
theorem stayDaemon
    {pidFile : Option (Option Nat)}
    (hInv : s.Inv)
    (hBorn : s.daemons d ≠ .unborn)
    (hLocked : stage.locked = (s.daemons d).locked)
    (hFlows : (s.daemons d).flows stage = true)
    (hWritten : stage.failing = false) :
    ({ s with pidFile := pidFile }.atDaemon d stage).Inv := by
  refine hInv.moveDaemon hBorn (.keep ?_) hFlows hWritten
  change (Function.update s.daemons d stage d).locked = true ↔
    (s.daemons d).locked = true
  rw [Function.update_self, hLocked]

/- A daemon takes the lock when it is free. -/
theorem takeDaemon
    (hInv : s.Inv)
    (hBorn : s.daemons d ≠ .unborn)
    (hFree : s.lock = none)
    (hIn : stage.locked = true)
    (hFlows : (s.daemons d).flows stage = true)
    (hWritten : stage.failing = false) :
    ((s.locking (.daemon d)).atDaemon d stage).Inv := by
  refine hInv.moveDaemon hBorn (.take hFree ?_) hFlows hWritten
  change (Function.update s.daemons d stage d).locked = true
  rw [Function.update_self, hIn]

/- A daemon lets go of the lock. -/
theorem releaseDaemon
    (hInv : s.Inv)
    (hBorn : s.daemons d ≠ .unborn)
    (hLocked : (s.daemons d).locked = true)
    (hOut : stage.locked = false)
    (hFlows : (s.daemons d).flows stage = true)
    (hWritten : stage.failing = false) :
    (s.unlocking.atDaemon d stage).Inv := by
  refine hInv.moveDaemon hBorn (.release hLocked ?_) hFlows
    hWritten
  change ¬ (Function.update s.daemons d stage d).locked = true
  rw [Function.update_self, hOut]
  simp

/- The daemon that binds is the only one that may listen. -/
theorem bindSocket
    {socketId : Nat}
    (hInv : s.Inv)
    (hStage : s.daemons d = .bind)
    (hNone : s.socket = none) :
    ({ s with
      socket := some ⟨socketId, some d⟩ }.atDaemon d
        .listen).Inv := by
  have hNobody : ∀ e, (s.daemons e).bound = false := by
    intro e
    by_contra hBound
    rcases hInv.bound e (by simpa using hBound) with ⟨i, h⟩
    rw [hNone] at h
    cases h
  refine hInv.ofDaemon rfl rfl rfl
    (hInv.born (by rw [hStage]; simp)) (.keep ?_)
    (Or.inr hNobody) (fun _ => hInv.starting d ?_)
    (fun _ => ⟨socketId, rfl⟩) (fun h => by cases h)
    (fun h => by cases h) rfl
  · change (Function.update s.daemons d _ d).locked = true ↔
      (s.daemons d).locked = true
    rw [Function.update_self, hStage]
    rfl
  · rw [hStage]
    rfl

/- A daemon that finishes removes its socket. -/
theorem removeSocket
    (hInv : s.Inv)
    (hStage : s.daemons d = .removeSocket true) :
    (s.withoutSocket.atDaemon d .releaseLock).Inv := by
  have hFinishing : (s.daemons d).finishing = true := by
    rw [hStage]
    rfl
  have hBars : ∀ e, s.Bars (.daemon d) e := fun _ => hFinishing
  refine hInv.ofDaemon rfl rfl rfl
    (hInv.born (by rw [hStage]; simp)) (.keep ?_)
    (Or.inr (hInv.nobody_bound (inside_of_bars (hBars d)) hBars
      (fun p h => by cases h))) (fun h => by cases h)
    (fun h => by cases h) (fun h => by cases h)
    (fun _ e _ => hInv.barred _ e (hBars e)) rfl
  change (Function.update s.daemons d _ d).locked = true ↔
    (s.daemons d).locked = true
  rw [Function.update_self, hStage]
  rfl

/- A daemon dies, and its locks are released. -/
theorem kill
    {status : String}
    (hInv : s.Inv)
    (hBorn : s.daemons d ≠ .unborn) :
    ((if (s.daemons d).locked then
      s.unlocking
    else
      s).atDaemon d (.exited status)).Inv := by
  have hFlows :
      (s.daemons d).flows (.exited status) = true := rfl
  split
  · rename_i hLocked
    exact hInv.releaseDaemon hBorn hLocked rfl hFlows rfl
  · rename_i hLocked
    exact hInv.stayDaemon hBorn
      (eq_false_of_ne_true hLocked).symm hFlows rfl

end Daemons

------------------------------------------------------------
-- Children
------------------------------------------------------------

/- A new daemon starts as the child of the proxy inside. -/
theorem spawnDaemon
    (hInv : s.Inv)
    (hStage : s.proxies p = .spawn) :
    (({ s with
        nextDaemon := s.nextDaemon + 1 }.atDaemon
          s.nextDaemon .setUp).atProxy p
      (.waitForAccept s.nextDaemon)).Inv := by
  have hBars : ∀ d, (s.daemons d).listening = false := by
    intro d
    refine hInv.barred (.proxy p) d (Or.inl ?_)
    rw [hStage]
    rfl
  have hUnborn := hInv.unborn s.nextDaemon (Nat.le_refl _)
  -- The proxy waits for its child before there is one.
  have hWaits :
      ({ s with nextDaemon := s.nextDaemon + 1 }.atProxy p
        (.waitForAccept s.nextDaemon)).Inv := by
    refine hInv.ofProxy rfl rfl (Nat.le_succ _) (.keep ?_)
      (Or.inl rfl) (fun c h => ?_) (fun c h => ?_)
      (fun h => by cases h) (fun _ _ d _ => hBars d)
    · change (Function.update s.proxies p _ p).locked = true ↔
        (s.proxies p).locked = true
      rw [Function.update_self, hStage]
      rfl
    · rw [hStage] at h
      cases h
    · cases h
      exact Nat.lt_succ_self _
  refine hWaits.ofDaemon
    (d := s.nextDaemon) rfl rfl rfl
    (Nat.lt_succ_self _) (.keep ?_) (Or.inl rfl)
    (fun _ => ⟨p, ?_⟩) (fun h => by cases h)
    (fun h => by cases h) (fun h => by cases h) rfl
  · change (Function.update s.daemons s.nextDaemon _
        s.nextDaemon).locked = true ↔
      (s.daemons s.nextDaemon).locked = true
    rw [Function.update_self, hUnborn]
    rfl
  · change (Function.update s.proxies p _ p).child = _
    rw [Function.update_self]
    rfl

/- The guard kills its child before it gives up the lock. -/
theorem dropGuard
    {child : Nat} {answer : Option Answer} {status : String}
    (hInv : s.Inv)
    (hStage : s.proxies p = .dropGuard child answer) :
    ((s.atDaemon child (.exited status)).atProxy p
      (.unlock answer)).Inv := by
  have hChild : (s.proxies p).child = some child := by
    rw [hStage]
    rfl
  have hInside : s.Inside (.proxy p) :=
    (ProxyStage.locked_of_child hChild).1
  have hOutside : (s.daemons child).locked = false := by
    by_contra h
    cases hInv.guarded.unique hInside
      (j := .daemon child) (by simpa [Inside] using h)
  have hDead : (s.atDaemon child (.exited status)).Inv := by
    refine hInv.ofDaemon rfl rfl rfl
      (hInv.children p child hChild) (.keep ?_) (Or.inl rfl)
      (fun h => by cases h) (fun h => by cases h)
      (fun h => by cases h) (fun h => by cases h) rfl
    change (Function.update s.daemons child _ child).locked =
        true ↔
      (s.daemons child).locked = true
    rw [Function.update_self, hOutside]
    rfl
  refine hDead.insideProxy hInside rfl (fun c h => ?_)
    (fun c h => by cases h) (fun h => by cases h)
  refine Or.inr ?_
  change (s.proxies p).child = some c at h
  rw [hChild] at h
  cases h
  change (Function.update s.daemons child _ child).starting = _
  rw [Function.update_self]
  rfl

/- The daemon that accepts is the child of the one who waits. -/
theorem accepted
    {child listener : Nat}
    (hInv : s.Inv)
    (hChild : (s.proxies p).child = some child)
    (hListener : s.listener = some listener) :
    (s.daemons child).starting = false := by
  have hListening :
      (s.daemons listener).listening = true := by
    unfold RunDir.listener at hListener
    split at hListener
    · cases hListener
    · exact (Option.filter_eq_some_iff.mp hListener).2
  have hSame : listener = child := by
    by_contra hNe
    have hBarred := hInv.barred (.proxy p) listener
      (Or.inr ⟨child, hChild, hNe⟩)
    rw [hListening] at hBarred
    cases hBarred
  rw [hSame] at hListening
  cases hStage : s.daemons child <;>
    rw [hStage] at hListening <;>
      first | rfl | cases hListening

------------------------------------------------------------
-- Steps
------------------------------------------------------------

/- Each step of a proxy is one of these. -/
theorem proxyNext
    {paths : Paths} {o : Outcome}
    (hInv : s.Inv)
    (hNext : s.proxyNext paths p o = some t) :
    t.Inv := by
  unfold RunDir.proxyNext at hNext
  cases hStage : s.proxies p <;> cases o <;>
    simp only [hStage, Option.some.injEq, Option.map_eq_some_iff,
      reduceCtorEq] at hNext
  case idle.ok | returned.ok | connect.dropped |
    ensureRunDir.ok | ensureRunDir.failed | acquireLock.failed |
    acquireLock.expired | acquireLock.dropped =>
      subst hNext
      exact hInv.outsideProxy (by rw [hStage]; rfl) rfl
  case connect.ok =>
    rcases hNext with ⟨_, _, rfl⟩
    exact hInv.outsideProxy (by rw [hStage]; rfl) rfl
  case connect.failed e =>
    split at hNext <;> cases hNext
    exact hInv.outsideProxy (by rw [hStage]; rfl) rfl
  case acquireLock.ok =>
    split at hNext <;> cases hNext
    exact hInv.takeProxy hStage ‹_›
  all_goals
    have hLocked : (s.proxies p).locked = true := by
      rw [hStage]
      rfl
  case reconnect.ok =>
    rcases hNext with ⟨d, _, rfl⟩
    exact hInv.childless hLocked (by rw [hStage]; rfl) rfl rfl
      (fun h => by cases h)
  case reconnect.failed e =>
    split at hNext <;> cases hNext
    rename_i hFails
    have hStale := hInv.nobody_listening hFails
    split
    · rename_i hClass
      split
      · exact hInv.childless hLocked (by rw [hStage]; rfl)
          rfl rfl (fun _ => hStale hClass)
      · exact hInv.childless hLocked (by rw [hStage]; rfl)
          rfl rfl (fun _ => hStale hClass)
    · exact hInv.childless hLocked (by rw [hStage]; rfl)
        rfl rfl (fun h => by cases h)
    · exact hInv.childless hLocked (by rw [hStage]; rfl)
        rfl rfl (fun h => by cases h)
  case reconnect.dropped =>
    subst hNext
    exact hInv.childless hLocked (by rw [hStage]; rfl) rfl rfl
      (fun h => by cases h)
  case removeStaleSocket.ok =>
    subst hNext
    exact hInv.removeStaleSocket hStage
  case spawn.ok =>
    subst hNext
    exact hInv.spawnDaemon hStage
  case unlock.ok answer =>
    subst hNext
    exact hInv.releaseProxy hStage
  case pidFileHeld.ok e =>
    have hStale := hInv.nobody_of_stale (by rw [hStage]; rfl)
    subst hNext
    split
    · exact hInv.childless hLocked (by rw [hStage]; rfl) rfl rfl
        (fun _ => hStale)
    · exact hInv.childless hLocked (by rw [hStage]; rfl) rfl rfl
        (fun _ => hStale)
  case removeStaleSocket.failed e =>
    have hStale := hInv.nobody_of_stale (by rw [hStage]; rfl)
    subst hNext
    split
    · exact hInv.childless hLocked (by rw [hStage]; rfl) rfl rfl
        (fun _ => hStale)
    · exact hInv.childless hLocked (by rw [hStage]; rfl) rfl rfl
        (fun _ => hStale)
  case pidFileHeld.failed | openLog.ok | openLog.failed |
    spawn.failed =>
      have hStale := hInv.nobody_of_stale (by rw [hStage]; rfl)
      subst hNext
      exact hInv.childless hLocked (by rw [hStage]; rfl) rfl rfl
        (fun _ => hStale)
  -- Up to the end of its guard the proxy has the one child.
  case waitForAccept.ok child =>
    have hChild : (s.proxies p).child = some child := by
      rw [hStage]
      rfl
    rcases hNext with ⟨d, hListener, rfl⟩
    refine hInv.insideProxy hLocked rfl (fun c h => ?_)
      (fun _ h => by cases h) (fun h => by cases h)
    cases hChild.symm.trans h
    exact Or.inr (hInv.accepted hChild hListener)
  case waitForAccept.failed child e =>
    split at hNext <;> cases hNext
    exact hInv.sameChild (by rw [hStage]; rfl) rfl
  case tryWait.ok child =>
    subst hNext
    split
    · exact hInv.sameChild (by rw [hStage]; rfl) rfl
    · exact hInv.sameChild (by rw [hStage]; rfl) rfl
  case dropGuard.ok child answer =>
    subst hNext
    split
    · exact hInv.dropGuard hStage
    · exact hInv.dropGuard hStage
  case waitForAccept.dropped | tryWait.failed | deadline.ok |
    deadline.expired | deadline.dropped =>
      subst hNext
      exact hInv.sameChild (by rw [hStage]; rfl) rfl

/- Each step of a daemon that writes its file keeps it. -/
theorem daemonNext
    {o : Outcome}
    (hInv : s.Inv)
    (hNext : s.daemonNext d o = some t)
    (hWrites : s.writeFails (.daemon d o) = false) :
    t.Inv := by
  have hWritten := hInv.written d
  unfold RunDir.daemonNext at hNext
  cases hStage : s.daemons d <;> cases o <;>
    simp only [hStage, Option.some.injEq, Option.map_eq_some_iff,
      reduceCtorEq] at hNext
  all_goals
    have hBorn : s.daemons d ≠ .unborn := by
      rw [hStage]
      intro h
      cases h
  case connect.ok | bindRace.ok | stat.ok =>
    rcases hNext with ⟨_, _, rfl⟩
    exact hInv.stayDaemon hBorn (by rw [hStage]; rfl)
      (by rw [hStage]; rfl) rfl
  case connect.failed | bindRace.failed =>
    split at hNext <;> cases hNext
    exact hInv.stayDaemon hBorn (by rw [hStage]; rfl)
      (by rw [hStage]; rfl) rfl
  case bind.created socketId =>
    split at hNext <;> cases hNext
    exact hInv.bindSocket hStage ‹_›
  case writeLocked.failed socketId e =>
    change (s.daemons d).writing = false at hWrites
    rw [hStage] at hWrites
    cases hWrites
  case acquireLock.ok trigger socketId =>
    split at hNext <;> cases hNext
    exact hInv.takeDaemon hBorn ‹_› rfl
      (by rw [hStage]; rfl) rfl
  case drainBacklog.busy trigger socketId =>
    cases trigger <;> cases hNext
    exact hInv.stayDaemon hBorn (by rw [hStage]; rfl)
      (by rw [hStage]; rfl) rfl
  case resume.ok | releaseLock.ok =>
    subst hNext
    exact hInv.releaseDaemon hBorn (by rw [hStage]; rfl) rfl
      (by rw [hStage]; rfl) rfl
  case close.ok socketId lock =>
    subst hNext
    cases lock with
    | false =>
        exact hInv.stayDaemon hBorn (by rw [hStage]; rfl)
          (by rw [hStage]; rfl) rfl
    | true =>
        exact hInv.stayDaemon hBorn (by rw [hStage]; rfl)
          (by rw [hStage]; rfl) rfl
  -- Only a failed write comes to these in `bind`.
  case checkSocket.ok finishing socketId =>
    rw [hStage] at hWritten
    cases finishing <;> cases hWritten
    subst hNext
    split
    · exact hInv.stayDaemon hBorn (by rw [hStage]; rfl)
        (by rw [hStage]; rfl) rfl
    · exact hInv.stayDaemon hBorn (by rw [hStage]; rfl)
        (by rw [hStage]; rfl) rfl
  case checkSocket.failed finishing socketId e =>
    rw [hStage] at hWritten
    cases finishing <;> cases hWritten
    subst hNext
    exact hInv.stayDaemon hBorn (by rw [hStage]; rfl)
      (by rw [hStage]; rfl) rfl
  case removeSocket.ok finishing =>
    rw [hStage] at hWritten
    cases finishing <;> cases hWritten
    subst hNext
    exact hInv.removeSocket hStage
  case removeSocket.failed finishing e =>
    rw [hStage] at hWritten
    cases finishing <;> cases hWritten
    subst hNext
    exact hInv.stayDaemon hBorn (by rw [hStage]; rfl)
      (by rw [hStage]; rfl) rfl
  case bind.failed | acquireLock.expired | acquireLock.failed |
    readPidFile.ok =>
      subst hNext
      split
      · exact hInv.stayDaemon hBorn (by rw [hStage]; rfl)
          (by rw [hStage]; rfl) rfl
      · exact hInv.stayDaemon hBorn (by rw [hStage]; rfl)
          (by rw [hStage]; rfl) rfl
  all_goals
    subst hNext
    exact hInv.stayDaemon hBorn (by rw [hStage]; rfl)
      (by rw [hStage]; rfl) rfl

/- Every step keeps the invariant. -/
theorem next
    {paths : Paths} {e : Event}
    (hInv : s.Inv)
    (hNext : s.next paths e = some t)
    (hWrites : s.writeFails e = false) :
    t.Inv := by
  cases e with
  | proxy p o => exact hInv.proxyNext hNext
  | daemon d o => exact hInv.daemonNext hNext hWrites
  | kill d status =>
      simp only [RunDir.next] at hNext
      split at hNext
      · cases hNext
      · cases hNext
      · rename_i hStage _
        cases hNext
        exact hInv.kill hStage

end Inv

------------------------------------------------------------
-- The Socket File
------------------------------------------------------------

/-
  A proxy removes a socket only after it has found it stale.
-/
theorem socket_proxyNext
    {paths : Paths} {o : Outcome}
    (hNext : s.proxyNext paths p o = some t) :
    t.socket = s.socket ∨
      s.proxies p = .removeStaleSocket := by
  unfold RunDir.proxyNext at hNext
  cases hStage : s.proxies p <;> cases o <;>
    simp only [hStage, Option.some.injEq, Option.map_eq_some_iff,
      reduceCtorEq] at hNext
  case removeStaleSocket.ok | removeStaleSocket.failed =>
    exact Or.inr rfl
  case connect.ok | reconnect.ok | waitForAccept.ok =>
    rcases hNext with ⟨_, _, rfl⟩
    exact Or.inl rfl
  case connect.failed | acquireLock.ok | reconnect.failed |
    waitForAccept.failed =>
      split at hNext <;> cases hNext
      exact Or.inl rfl
  all_goals
    subst hNext
    exact Or.inl rfl

/- A daemon removes one only at its end. -/
theorem socket_daemonNext
    {o : Outcome}
    (hNext : s.daemonNext d o = some t) :
    t.socket = s.socket ∨ s.socket = none ∨
      ∃ finishing, s.daemons d = .removeSocket finishing := by
  unfold RunDir.daemonNext at hNext
  cases hStage : s.daemons d <;> cases o <;>
    simp only [hStage, Option.some.injEq, Option.map_eq_some_iff,
      reduceCtorEq] at hNext
  case removeSocket.ok | removeSocket.failed =>
    exact Or.inr (Or.inr ⟨_, rfl⟩)
  case connect.ok | bindRace.ok | stat.ok =>
    rcases hNext with ⟨_, _, rfl⟩
    exact Or.inl rfl
  case bind.created =>
    split at hNext <;> cases hNext
    exact Or.inr (Or.inl ‹_›)
  case connect.failed | bindRace.failed | acquireLock.ok =>
    split at hNext <;> cases hNext
    exact Or.inl rfl
  case drainBacklog.busy trigger socketId =>
    cases trigger <;> cases hNext
    exact Or.inl rfl
  all_goals
    subst hNext
    exact Or.inl rfl

/- Only one who bars all daemons removes the file. -/
theorem Inv.socket_next
    {paths : Paths} {e : Event} {file : SocketFile}
    (hInv : s.Inv)
    (hNext : s.next paths e = some t)
    (hSocket : s.socket = some file)
    (hListening : (s.daemons d).listening = true) :
    t.socket = some file := by
  have hBarred :
      ∀ party, (∀ e, s.Bars party e) → t.socket = some file := by
    intro party hBars
    have hClear := hInv.barred party d (hBars d)
    rw [hListening] at hClear
    cases hClear
  cases e with
  | proxy p o =>
      rcases socket_proxyNext hNext with hSame | hStage
      · exact hSame.trans hSocket
      · refine hBarred (.proxy p) (fun _ => Or.inl ?_)
        rw [hStage]
        rfl
  | daemon e o =>
      rcases socket_daemonNext hNext with
        hSame | hNone | ⟨finishing, hStage⟩
      · exact hSame.trans hSocket
      · rw [hNone] at hSocket
        cases hSocket
      · have hWritten := hInv.written e
        rw [hStage] at hWritten
        cases finishing <;> cases hWritten
        refine hBarred (.daemon e) (fun _ => ?_)
        change (s.daemons e).finishing = true
        rw [hStage]
        rfl
  | kill e status =>
      simp only [RunDir.next] at hNext
      split at hNext
      · cases hNext
      · cases hNext
      · cases hNext
        split <;> exact hSocket

/- One daemon at most listens. -/
def OneListener (s : RunDir) : Prop :=
  ∀ d e, (s.daemons d).listening = true →
    (s.daemons e).listening = true → d = e

/- No step removes the socket file of one that listens. -/
def KeepsSocket (paths : Paths) (s : RunDir) : Prop :=
  ∀ e t d file, s.next paths e = some t →
    s.socket = some file → file.boundBy = some d →
      (s.daemons d).listening = true → t.socket = some file

end RunDir

/- The runs in which every PID file is written. -/
def written (paths : Paths) : Machine RunDir Event :=
  (machine paths).restrict
    (fun s e => s.writeFails e = false)

/-
  In every run in which no daemon fails to write its PID file,
  one daemon at most listens, and no step removes the socket
  file of a daemon that listens.
-/
theorem spawn_exclusive
    {paths : Paths} {s : RunDir}
    (hReach : (written paths).Reachable s) :
    s.OneListener ∧ s.KeepsSocket paths := by
  rcases hReach with ⟨s₀, es, hInitial, hRun⟩
  have hInv : s.Inv :=
    hRun.restrict_invariant
      (fun _ _ _ hInv hNext hWrites => hInv.next hNext hWrites)
      (RunDir.Initial.inv hInitial)
  constructor
  · intro d e hFirst hSecond
    exact hInv.listening_unique hFirst hSecond
  · intro e t d file hNext hSocket _ hListening
    exact hInv.socket_next hNext hSocket hListening

/- An empty directory. -/
def RunDir.empty : RunDir where
  lock := none
  socket := none
  pidFile := none
  proxies _ := .idle
  daemons _ := .unborn
  nextDaemon := 0

/- An empty directory is a beginning. -/
theorem RunDir.initial_empty : RunDir.empty.Initial where
  lock := rfl
  proxies _ := rfl
  daemons _ := rfl
  socket _ h := by cases h
  pidFile := rfl

/- The paths of the example. -/
def Paths.sample : Paths where
  socket := "k.sock"
  lockFile := "k.lock"
  logFile := "ferrexd.log"
  exe := "ferrex"
  envLog := none
  accept := "10s"

/- A call that finds no file. -/
private def absent : Outcome :=
  .failed ⟨.notFound, "No such file or directory"⟩

/- A proxy spawns a daemon, which listens. -/
private def spawning (p d socketId : Nat) : List Event :=
  [.proxy p .ok, .proxy p absent, .proxy p .ok, .proxy p .ok,
    .proxy p absent, .proxy p absent, .proxy p .ok,
    .proxy p .ok, .daemon d .ok, .daemon d absent,
    .daemon d (.created socketId), .daemon d .ok,
    .proxy p .ok, .proxy p .ok, .daemon d .ok]

/- A run in which a daemon comes to serve. -/
theorem spawn_exclusive_serving :
    ∃ s, (written .sample).Reachable s ∧
      s.daemons 0 = .serve 7 ∧ s.OneListener ∧
        s.KeepsSocket .sample := by
  let events : List Event :=
    spawning 0 0 7 ++ [.daemon 0 .ok]
  let serving : RunDir → Bool :=
    fun s => decide (s.daemons 0 = .serve 7)
  have hComputed :
      (events.foldlM
        (Machine.checked (RunDir.next .sample)
          (fun s e => !s.writeFails e)) RunDir.empty).any
        serving = true := by
    decide +kernel
  rcases Machine.Run.restrict_of_any RunDir.Initial _ _ _
    (fun s e h => (Bool.not_eq_true' _).mp h)
    hComputed with ⟨s, hRun, hTest⟩
  have hReach : (written .sample).Reachable s :=
    ⟨_, _, RunDir.initial_empty, hRun⟩
  have hExclusive := spawn_exclusive hReach
  exact ⟨s, hReach, of_decide_eq_true hTest, hExclusive.1,
    hExclusive.2⟩

/-
  The first daemon listens and has been connected to when it
  fails to write its PID file.  It removes its socket file and
  is still to drop its listener when a second one listens.
-/
theorem failed_write_unbinds :
    (¬ ∀ s, (machine .sample).Reachable s →
      s.OneListener) ∧
      ¬ ∀ s, (machine .sample).Reachable s →
        s.KeepsSocket .sample := by
  let full : Outcome := .failed ⟨.other, "no space left"⟩
  let failing : List Event :=
    spawning 0 0 7 ++ [.daemon 0 full, .daemon 0 .ok]
  constructor
  · intro hAll
    rcases run_of_any .sample RunDir.empty
      (failing ++ .daemon 0 .ok :: spawning 1 1 8)
      (fun s => (s.daemons 0).listening &&
        (s.daemons 1).listening)
      (by decide +kernel) with ⟨s, hRun, hTest⟩
    simp only [Bool.and_eq_true] at hTest
    have hSame := hAll s ⟨_, _, RunDir.initial_empty, hRun⟩ 0 1
      hTest.1 hTest.2
    cases hSame
  · intro hAll
    rcases run_of_any .sample RunDir.empty failing
      (fun s => decide (s.socket = some ⟨7, some 0⟩) &&
        (s.daemons 0).listening &&
          (s.next .sample (.daemon 0 .ok)).any
            (fun t => t.socket.isNone))
      (by decide +kernel) with ⟨s, hRun, hTest⟩
    simp only [Bool.and_eq_true, decide_eq_true_eq] at hTest
    rcases (Option.any_eq_true _ _).mp hTest.2 with
      ⟨t, hNext, hNone⟩
    have hKept := hAll s ⟨_, _, RunDir.initial_empty, hRun⟩
      _ t 0 _ hNext hTest.1.1 rfl hTest.1.2
    rw [hKept] at hNone
    cases hNone

end Spawn

end Daemon

end Ferrex
