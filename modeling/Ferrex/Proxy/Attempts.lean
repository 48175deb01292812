import Ferrex.Proxy.Accepted
import Ferrex.Proxy.Initialized
import Ferrex.Proxy.Readers

/-
  The attempts to re-send the kept first request: a round
  never begins with all of them used, and one generation of
  the kept request gets no more than that many, unless a line
  of a daemon answers its id and leaves it kept.

  Main declarations:
    * `attemptsFor`
    * `Tracker.strands`, `unstranded`
    * `Session.Limited`, `Session.Counted`
    * `attempts_bounded`
-/

------------------------------------------------------------
-- Attempts
------------------------------------------------------------

namespace Ferrex

namespace Proxy

variable {Line Value : Type}

/- An attempt that is to re-send this generation. -/
def Effect.resends (g : Nat) : Effect Line Value → Bool
| .attempt kept => kept = some g
| _ => false

/- How many attempts a kept request has had. -/
def attemptsFor
    (g : Nat)
    (log : List (Effect Line Value)) : Nat :=
  log.countP (Effect.resends g)

section Counting

variable {g : Nat} {kept : Option Nat}
variable {log es : List (Effect Line Value)}

/- Other effects do not count. -/
theorem attemptsFor_quiet
    (hEs : ∀ kept, Effect.attempt kept ∉ es) :
    attemptsFor g (log ++ es) = attemptsFor g log := by
  unfold attemptsFor
  rw [List.countP_append]
  have hNone : es.countP (Effect.resends g) = 0 := by
    rw [List.countP_eq_zero]
    intro e he
    cases e with
    | attempt kept => exact absurd he (hEs kept)
    | _ => simp [Effect.resends]
  rw [hNone, Nat.add_zero]

/- An attempt counts for the request that it is about. -/
theorem attemptsFor_attempt :
    attemptsFor g (log ++ [.attempt kept]) =
      attemptsFor g log + if kept = some g then 1 else 0 := by
  unfold attemptsFor
  rw [List.countP_append, List.countP_singleton]
  simp [Effect.resends]

end Counting

/- The round is to re-send the kept request. -/
def resendsKept (after : Option AfterHello) : Bool :=
  after = some .replayForward || after = some .resendKept

/- A connection has been adopted, and its loss is not handled. -/
def Phase.connected : Phase Line Value → Bool
| .round _ _ _ _ => false
| .disconnected => false
| .exited => false
| _ => true

/- The request whose response a re-sent `initialize` awaits. -/
def Stage.resent : Stage Line Value → Option Value
| .resendInitialize _ id => some id
| .resendResponse _ id => some id
| _ => none

------------------------------------------------------------
-- The Kept Request
------------------------------------------------------------

namespace Tracker

variable {codec : Codec Line Value}
variable {t : Tracker Line Value}
variable {kept : KeptRequest Line Value}

/-
  The line answers the request in flight that has the id of
  the kept one, and the request stays kept: the line has no
  error, and no result or one for a request that took over
  the id and does not count.
-/
def strands
    (codec : Codec Line Value)
    (t : Tracker Line Value)
    (line : Line) : Bool :=
  match codec.response line with
  | some (got, result, error) =>
      t.keptFirst.any
          (fun k => codec.idKey k.id = codec.idKey got) &&
        !error &&
        (t.inFlight.find?
          (fun p => key codec p = codec.idKey got)).any
            (fun p => !(result && countsForLifecycle p.method))
  | none => false

/- The kept request has not been answered. -/
def Waits
    (codec : Codec Line Value)
    (t : Tracker Line Value) : Prop :=
  ∀ kept, t.keptFirst = some kept →
    t.isInFlight codec kept.id = true

/- What waits is in flight. -/
theorem Waits.keptInFlight
    (hWaits : t.Waits codec) :
    t.keptInFlight codec = t.keptFirst := by
  unfold Tracker.keptInFlight
  cases hKept : t.keptFirst with
  | none => rfl
  | some kept =>
      rw [Option.filter_some, if_pos (hWaits kept hKept)]

/- A response to the id of the kept request ends its wait. -/
theorem keptFirst_of_answered
    {line : Line} {got : Value} {result error : Bool}
    (hWaits : t.Waits codec)
    (hNot : t.initialised = false)
    (hStays : t.strands codec line = false)
    (hKept : t.keptFirst = some kept)
    (hResponse : codec.response line = some (got, result, error))
    (hKey : codec.idKey kept.id = codec.idKey got) :
    (t.onDaemonLine codec line).keptFirst = none := by
  have hSome :
      (t.inFlight.find?
        (fun p => key codec p = codec.idKey got)).isSome =
          true := by
    rw [List.find?_isSome]
    have hIn := hWaits kept hKept
    unfold isInFlight at hIn
    rw [List.any_eq_true] at hIn
    rcases hIn with ⟨p, hMem, hp⟩
    exact ⟨p, hMem, by simpa [hKey] using hp⟩
  rcases Option.isSome_iff_exists.mp hSome with ⟨p, hFind⟩
  rw [keptFirst_of_response hNot hResponse hFind hKept]
  unfold strands at hStays
  simp only [hResponse, hKept, hFind, Option.any_some, hKey,
    decide_true, Bool.true_and, Bool.and_eq_false_iff,
    Bool.not_eq_false'] at hStays
  rcases hStays with hError | hSuccess
  · exact Or.inr ⟨hError, codec.sameId_of_idKey _ _ hKey⟩
  · exact Or.inl hSuccess

/- An answer can only end the wait. -/
theorem keptFirst_onDaemonLine
    (codec : Codec Line Value)
    (t : Tracker Line Value)
    (line : Line) :
    (t.onDaemonLine codec line).keptFirst = t.keptFirst ∨
      (t.onDaemonLine codec line).keptFirst = none := by
  rcases t.onDaemonLine_eq codec line with
    ⟨_, _, _, hEq, ⟨_, hKept⟩ | ⟨_, hKept⟩ | ⟨_, hKept⟩⟩ <;>
      rw [hEq, hKept]
  · exact Or.inl rfl
  · exact Or.inr rfl
  · exact Or.inr rfl

/-
  It ends it together with the request, unless it strands
  it.
-/
theorem Waits.onDaemonLine
    {line : Line}
    (hWaits : t.Waits codec)
    (hNot : t.keptFirst ≠ none → t.initialised = false)
    (hStays : t.strands codec line = false) :
    (t.onDaemonLine codec line).Waits codec := by
  intro kept hKept
  have hOld : t.keptFirst = some kept := by
    rcases keptFirst_onDaemonLine codec t line with h | h
    · rw [← h, hKept]
    · rw [h] at hKept
      cases hKept
  have hOpen : t.initialised = false := hNot (by simp [hOld])
  by_cases hAnswers :
      ∃ got result error p,
        codec.response line = some (got, result, error) ∧
          t.inFlight.find?
            (fun p => key codec p = codec.idKey got) = some p
  · rcases hAnswers with
      ⟨got, result, error, p, hResponse, hFind⟩
    by_cases hKey : codec.idKey kept.id = codec.idKey got
    · rw [keptFirst_of_answered hWaits hOpen hStays hOld
        hResponse hKey] at hKept
      cases hKept
    · rw [isInFlight_of_response hResponse hFind,
        hWaits kept hOld]
      simpa using Ne.symm hKey
  · rw [onDaemonLine_of_none]
    · exact hWaits kept hOld
    · intro got result error hResponse
      apply Option.eq_none_iff_forall_ne_some.mpr
      exact fun p hFind =>
        hAnswers ⟨got, result, error, p, hResponse, hFind⟩

/-
  The kept id stays in flight when the others are answered.
-/
theorem isInFlight_takeInFlightExcept
    {id : Value}
    (hIn : t.isInFlight codec id = true) :
    (t.takeInFlightExcept codec id).1.isInFlight codec id =
      true := by
  unfold isInFlight at hIn ⊢
  rw [List.any_eq_true] at hIn ⊢
  rcases hIn with ⟨p, hMem, hp⟩
  exact ⟨p, List.mem_filter.mpr ⟨hMem, hp⟩, hp⟩

/- Another request takes the place of its own id only. -/
theorem isInFlight_upsert
    {id : Value} {p : Pending Value}
    (hIn : t.isInFlight codec id = true) :
    ({ t with
      inFlight := Table.upsert (key codec) p
        t.inFlight }).isInFlight codec id = true := by
  unfold isInFlight at hIn ⊢
  rw [List.any_eq_true] at hIn ⊢
  rcases hIn with ⟨q, hMem, hq⟩
  by_cases hKey : key codec q = key codec p
  · exact ⟨p, Table.mem_upsert_iff.mpr (Or.inl rfl), by
      rwa [hKey] at hq⟩
  · exact ⟨q, Table.mem_upsert_iff.mpr (Or.inr ⟨hMem, hKey⟩),
      hq⟩

/- A request that is newly kept is in flight. -/
theorem Waits.onClientLine
    {line : Numbered Line}
    (hWaits : t.Waits codec) :
    (t.onClientLine codec line).1.Waits codec := by
  rcases onClientLine_eq codec t line with
    ⟨inFlight, _, _, kept, _, hEq, _, _, hKept, hInFlight⟩
  intro k hk
  rw [hEq] at hk ⊢
  change kept = some k at hk
  change ({ t with inFlight := inFlight }).isInFlight codec
    k.id = true
  rcases hKept with ⟨hSame, _⟩ |
    ⟨id, method, hRequest, _, _, _, _, hNew⟩
  · have hOld := hWaits k (hSame.symm.trans hk)
    rcases hInFlight with ⟨_, rfl⟩ | ⟨id, method, _, rfl⟩
    · exact hOld
    · exact isInFlight_upsert hOld
  · rcases hInFlight with ⟨hNone, _⟩ | ⟨id', method', hSame, rfl⟩
    · rw [hRequest] at hNone
      cases hNone
    · rw [hRequest] at hSame
      cases hSame
      rw [hNew] at hk
      cases hk
      apply List.any_eq_true.mpr
      exact ⟨⟨id, method⟩, Table.mem_upsert_iff.mpr (Or.inl rfl),
        decide_eq_true rfl⟩

end Tracker

------------------------------------------------------------
-- Rounds Within the Limit
------------------------------------------------------------

namespace Session

variable {setup : Setup} {codec : Codec Line Value}
variable {s t u : Session Line Value} {e : Event Line}
variable {after : Option AfterHello} {attempts : Nat}
variable {early : Bool} {stage : Stage Line Value}

/-
  A round waits for its next attempt only while one is left,
  and what a re-send has used is forgotten once its connection
  is lost.
-/
structure Limited (s : Session Line Value) : Prop where
  backoff :
    ∀ after used early,
      s.phase = .round after used early .backoff →
        used < maxAttempts
  round :
    ∀ after used early stage,
      s.phase = .round after used early stage →
        used ≤ maxAttempts
  pending :
    ∀ p, s.pending = some p → p.attemptsUsed ≤ maxAttempts
  away : s.phase.away = true → s.pending = none

namespace Limited

/-
  The invariant is about phase and pending request alone.
-/
theorem same
    (hLimited : s.Limited)
    (hPhase : t.phase = s.phase)
    (hPending : t.pending = s.pending) :
    t.Limited where
  backoff := by
    rw [hPhase]
    exact hLimited.backoff
  round := by
    rw [hPhase]
    exact hLimited.round
  pending := by
    rw [hPending]
    exact hLimited.pending
  away := by
    rw [hPhase, hPending]
    exact hLimited.away

/- A connection is used, or the process is left. -/
theorem leave
    (hAway : t.phase.away = false)
    (hPending :
      ∀ p, t.pending = some p → p.attemptsUsed ≤ maxAttempts) :
    t.Limited where
  backoff _ _ _ hPhase := by
    rw [hPhase] at hAway
    cases hAway
  round _ _ _ _ hPhase := by
    rw [hPhase] at hAway
    cases hAway
  pending := hPending
  away hT := by
    rw [hT] at hAway
    cases hAway

/- A round that begins, or goes on. -/
theorem of_round
    (hPhase : t.phase = .round after attempts early stage)
    (hPending : t.pending = none)
    (hLimit : attempts ≤ maxAttempts)
    (hBackoff : stage = .backoff → attempts < maxAttempts) :
    t.Limited where
  backoff _ _ _ hT := by
    rw [hPhase] at hT
    cases hT
    exact hBackoff rfl
  round _ _ _ _ hT := by
    rw [hPhase] at hT
    cases hT
    exact hLimit
  pending p hSome := by
    rw [hPending] at hSome
    cases hSome
  away _ := hPending

/- In a round nothing is pending. -/
theorem pending_of_round
    (hLimited : s.Limited)
    (hPhase : s.phase = .round after attempts early stage) :
    s.pending = none :=
  hLimited.away (by rw [hPhase]; rfl)

/- The pump is in no round. -/
theorem pumpMove
    (hLimited : s.Limited)
    (hMove : PumpMove codec s e t) :
    t.Limited := by
  cases hMove <;> exact hLimited.same rfl rfl

/- A failed attempt is one of the few that are allowed. -/
theorem failed
    (hLimited : u.Limited)
    (hPhase : u.phase = .round after attempts early stage)
    (hFailed : Failed u after attempts t) :
    t.Limited := by
  have hNone := hLimited.pending_of_round hPhase
  cases hFailed with
  | gaveUp _ => exact leave rfl hLimited.pending
  | pending message _ _ =>
      exact ⟨fun _ _ _ h => (by cases h),
        fun _ _ _ _ h => (by cases h), hLimited.pending,
        fun _ => hNone⟩
  | retry early' hLeft =>
      exact of_round rfl hNone (Nat.le_of_lt hLeft)
        (fun _ => hLeft)

/- A loss begins a round with its first. -/
theorem lost
    (hLost : Lost codec u t) :
    t.Limited := by
  cases hLost with
  | wait _ =>
      exact ⟨fun _ _ _ h => (by cases h),
        fun _ _ _ _ h => (by cases h), fun _ h => (by cases h),
        fun _ => rfl⟩
  | exit kept _ _ => exact leave rfl (fun _ h => by cases h)
  | now kept _ hUsed =>
      rw [reconnectNow_eq _ _ hUsed]
      exact of_round rfl rfl (Nat.le_of_lt hUsed)
        (fun _ => hUsed)

/- The main loop, case by case. -/
theorem mainMove
    (hLimited : s.Limited)
    (hMove : MainMove codec s e t) :
    t.Limited := by
  cases hMove with
  | hop e phase hHop =>
      cases hHop with
      | replayed after attempts early _ _ _ hPhase
      | resent after attempts early _ _ hPhase =>
          exact of_round rfl (hLimited.pending_of_round hPhase)
            (hLimited.round _ _ _ _ hPhase)
            (fun h => by cases h)
      | _ => exact leave rfl hLimited.pending
  | close e _ => exact leave rfl hLimited.pending
  | wait line _ _ _ _ _ =>
      unfold waitLine
      split <;> exact hLimited.same rfl rfl
  | begin after attempts early hPhase =>
      exact of_round rfl (hLimited.pending_of_round hPhase)
        (hLimited.backoff _ _ _ hPhase) (fun h => by cases h)
  | replay key exe attempts early line id hPhase _ _ =>
      exact of_round rfl (hLimited.pending_of_round hPhase)
        (hLimited.round _ _ _ _ hPhase) (fun h => by cases h)
  | resend key exe after attempts early stage kept hPhase _
      hStage =>
      refine of_round rfl (hLimited.pending_of_round hPhase)
        (hLimited.round _ _ _ _ hPhase) (fun h => ?_)
      rcases hStage with ⟨_, hStage⟩ | ⟨_, hStage⟩ <;>
        rw [hStage] at h <;> cases h
  | skip line exe _ _ _ _ _ _ _ _ => exact hLimited.same rfl rfl
  | replayInitialized line exe after attempts early _ _ _ hPhase
      _ =>
      exact of_round rfl (hLimited.pending_of_round hPhase)
        (hLimited.round _ _ _ _ hPhase) (fun h => by cases h)
  | fail e after attempts early stage u t hPhase _ hBroken
      hFailed =>
      have hU : u.Limited ∧ u.phase = s.phase := by
        cases hBroken <;> exact ⟨hLimited.same rfl rfl, rfl⟩
      exact hU.1.failed (hU.2.trans hPhase) hFailed
  | adopt e after attempts early stage key response u hPhase
      hAdopted =>
      have hU : u.pending = s.pending := by
        cases hAdopted <;> rfl
      rcases u.adopt_eq codec after attempts key response with
        ⟨_, tracker, pending, hEq, _, _, hPending⟩
      rw [hEq]
      refine leave rfl (fun p hSome => ?_)
      change pending = some p at hSome
      rw [hPending] at hSome
      split at hSome
      · rcases Option.map_eq_some_iff.mp hSome with
          ⟨kept, _, rfl⟩
        exact hLimited.round _ _ _ _ hPhase
      · exact hLimited.pending p (hU ▸ hSome)
  | flushLine line queue _ _ => exact leave rfl hLimited.pending
  | forwardLine line _ => exact leave rfl hLimited.pending
  | waiter _ => exact leave rfl hLimited.pending
  | loss t _ _ hLost => exact lost hLost
  | awaitLine line hPhase =>
      have hNone : s.pending = none :=
        hLimited.away (by rw [hPhase]; rfl)
      unfold awaitLine
      split
      · exact of_round rfl hNone (Nat.zero_le _)
          (fun _ => by decide)
      · exact hLimited.same rfl rfl

/- The limit holds in every state of a session. -/
theorem of_reachable
    (hReach : (machine setup codec).Reachable s) :
    s.Limited := by
  refine invariant_of_reachable ?_
    (fun _ _ _ hLimited hMove => hLimited.pumpMove hMove)
    (fun _ _ _ hLimited hMove => hLimited.mainMove hMove) hReach
  exact of_round rfl rfl (Nat.zero_le _) (fun _ => by decide)

end Limited

------------------------------------------------------------
-- Stages of a Re-Send
------------------------------------------------------------

/- Only a round that re-sends the kept request writes it. -/
structure Staged (s : Session Line Value) : Prop where
  resend :
    ∀ after attempts early key,
      s.phase = .round after attempts early (.resend key) →
        after = some .resendKept
  resent :
    ∀ after attempts early stage id,
      s.phase = .round after attempts early stage →
        stage.resent = some id →
          after = some .replayForward ∧
            ∃ kept, s.tracker.keptFirst = some kept ∧
              kept.id = id

namespace Staged

/- What neither enters such a stage nor drops the request. -/
theorem same
    (hStaged : s.Staged)
    (hPhase : t.phase = s.phase)
    (hKept :
      ∀ kept, s.tracker.keptFirst = some kept →
        t.tracker.keptFirst = some kept) :
    t.Staged where
  resend := by
    rw [hPhase]
    exact hStaged.resend
  resent after attempts early stage id hT hStage := by
    rw [hPhase] at hT
    rcases hStaged.resent _ _ _ _ _ hT hStage with
      ⟨hAfter, kept, hSome, hId⟩
    exact ⟨hAfter, kept, hKept kept hSome, hId⟩

/- A stage that sends nothing again. -/
theorem of_stage
    (hPhase : t.phase = .round after attempts early stage)
    (hResend : ∀ key, stage ≠ .resend key)
    (hResent : stage.resent = none) :
    t.Staged where
  resend _ _ _ key hT := by
    rw [hPhase] at hT
    cases hT
    exact absurd rfl (hResend key)
  resent _ _ _ _ _ hT hStage := by
    rw [hPhase] at hT
    cases hT
    rw [hResent] at hStage
    cases hStage

/- Outside a round there is no stage. -/
theorem of_other
    (hPhase :
      ∀ after attempts early stage,
        t.phase ≠ .round after attempts early stage) :
    t.Staged where
  resend _ _ _ _ hT := absurd hT (hPhase _ _ _ _)
  resent _ _ _ _ _ hT := absurd hT (hPhase _ _ _ _)

/- A line of the client does not change it. -/
theorem receive
    {line : Line}
    (hStaged : s.Staged) :
    (s.receive codec line).Staged := by
  refine hStaged.same rfl (fun kept hSome => ?_)
  rcases Tracker.onClientLine_eq codec s.tracker
    ⟨s.received, line⟩ with
    ⟨_, _, _, _, _, hEq, _, _, ⟨hKept, _⟩ | hKept, _⟩
  · have hTracker : (s.receive codec line).tracker = _ := hEq
    rw [hTracker]
    exact hKept.trans hSome
  · rcases hKept with ⟨_, _, _, _, hNone, _⟩
    rw [hNone] at hSome
    cases hSome

/- The pump has stopped in a round. -/
theorem pumpMove
    (hStaged : s.Staged)
    (hOrderly : s.Orderly)
    (hMove : PumpMove codec s e t) :
    t.Staged := by
  cases hMove with
  | «show» line hPump =>
      refine of_other (fun _ _ _ _ h => ?_)
      have hPhase : s.phase = _ := h
      have hStopped := hOrderly.away (by rw [hPhase]; rfl)
      rw [hPump] at hStopped
      cases hStopped
  | _ => exact hStaged.same rfl (fun _ h => h)

/- The main loop, case by case. -/
theorem mainMove
    (hStaged : s.Staged)
    (hMove : MainMove codec s e t) :
    t.Staged := by
  cases hMove with
  | hop e phase hHop =>
      cases hHop with
      | replayed _ _ _ _ _ _ _ =>
          exact of_stage rfl (fun _ h => by cases h) rfl
      | resent after attempts early key id hPhase =>
          refine ⟨fun _ _ _ _ h => (by cases h), ?_⟩
          intro _ _ _ _ _ h hStage
          cases h
          exact hStaged.resent _ _ _ _ _ hPhase hStage
      | _ => exact of_other (fun _ _ _ _ h => by cases h)
  | wait line _ _ _ _ _ =>
      have hReceive : (s.receive codec line).Staged :=
        hStaged.receive
      unfold waitLine
      split
      · exact hReceive
      · exact hReceive.same rfl (fun _ h => h)
  | begin _ _ _ _ | replay _ _ _ _ _ _ _ _ _
  | replayInitialized _ _ _ _ _ _ _ _ _ _ =>
      exact of_stage rfl (fun _ h => by cases h) rfl
  | resend key exe after attempts early stage kept _ hKept
      hStage =>
      rcases hStage with ⟨rfl, rfl⟩ | ⟨rfl, rfl⟩
      · refine ⟨fun _ _ _ _ h => (by cases h), ?_⟩
        intro _ _ _ _ _ h hResent
        cases h
        exact ⟨rfl, kept, hKept, Option.some.inj hResent⟩
      · refine ⟨fun _ _ _ _ h => ?_, ?_⟩
        · cases h
          rfl
        · intro _ _ _ _ _ h hResent
          cases h
          cases hResent
  | skip line exe _ _ _ _ _ _ _ _ =>
      exact hStaged.same rfl (fun _ h => h)
  | fail e after attempts _ _ u t _ _ _ hFailed =>
      cases hFailed with
      | retry early' _ =>
          exact of_stage rfl (fun _ h => by cases h) rfl
      | _ => exact of_other (fun _ _ _ _ h => by cases h)
  | adopt e after attempts _ _ key response u _ _ =>
      refine of_other (fun _ _ _ _ h => ?_)
      rw [Vouched.phase_adopt] at h
      cases h
  | loss t _ _ hLost =>
      cases hLost with
      | now kept _ hUsed =>
          rw [reconnectNow_eq _ _ hUsed]
          exact of_stage rfl (fun _ h => by cases h) rfl
      | _ => exact of_other (fun _ _ _ _ h => by cases h)
  | awaitLine line _ =>
      unfold awaitLine
      split
      · exact of_stage rfl (fun _ h => by cases h) rfl
      · exact hStaged.receive
  | _ => exact of_other (fun _ _ _ _ h => by cases h)

/- The stages are right in every state of a session. -/
theorem of_reachable
    (hReach : (machine setup codec).Reachable s) :
    s.Staged := by
  refine induction_of_reachable ?_
    (fun _ _ _ hSource hStaged hMove =>
      hStaged.pumpMove (.of_reachable hSource) hMove)
    (fun _ _ _ _ hStaged hMove => hStaged.mainMove hMove)
    hReach
  exact of_stage rfl (fun _ h => by cases h) rfl

end Staged

------------------------------------------------------------
-- Stranded Requests
------------------------------------------------------------

/- The line that a step shows strands the kept request. -/
def strands
    (codec : Codec Line Value)
    (s : Session Line Value)
    (e : Event Line) : Bool :=
  (s.showing codec e).any (s.tracker.strands codec)

/-
  The line in the pump's hand is the one that could strand.
-/
theorem strands_of_show
    {line : Line}
    (hStays : s.strands codec .pump = false)
    (hPump : s.pump = .show line) :
    s.tracker.strands codec line = false := by
  unfold strands showing at hStays
  rw [hPump] at hStays
  exact hStays

/- At a loss it is the held one. -/
theorem strands_of_held
    {line : Line}
    (hStays : s.strands codec .step = false)
    (hPhase : s.phase = .loss)
    (hPump : s.pump.joinable = true)
    (hHeld : s.held = some line) :
    s.tracker.strands codec line = false := by
  unfold strands showing at hStays
  rw [hPhase] at hStays
  simp only [hPump, if_true, hHeld] at hStays
  exact hStays

------------------------------------------------------------
-- The Count
------------------------------------------------------------

/- The attempts that a pending re-send of a generation took. -/
def pendingFor
    (pending : Option ResendPending)
    (g : Nat) : Nat :=
  match pending with
  | some p => if p.generation = g then p.attemptsUsed else 0
  | none => 0

/- The attempts that count against a generation. -/
def charged (s : Session Line Value) (g : Nat) : Nat :=
  match s.phase with
  | .round after attempts _ _ =>
      if resendsKept after then attempts else 0
  | .exited => maxAttempts
  | _ => pendingFor s.pending g

/- In a round its attempts are charged. -/
theorem charged_of_round
    {g : Nat}
    (hPhase : s.phase = .round after attempts early stage) :
    s.charged g =
      if resendsKept after then attempts else 0 := by
  unfold charged
  rw [hPhase]

/- On a connection, those of the round that made it. -/
theorem charged_of_connected
    {g : Nat}
    (hPhase : s.phase.connected = true) :
    s.charged g = pendingFor s.pending g := by
  unfold charged
  split
  · rename_i h
    rw [h] at hPhase
    cases hPhase
  · rename_i h
    rw [h] at hPhase
    cases hPhase
  · rfl

/- Between two rounds none are. -/
theorem charged_of_none
    {g : Nat}
    (hPhase : s.phase = .disconnected)
    (hPending : s.pending = none) :
    s.charged g = 0 := by
  unfold charged
  rw [hPhase, hPending]
  rfl

/-
  The attempts made for the kept request count against it, and
  no generation has had too many of them.
-/
structure Counted
    (codec : Codec Line Value)
    (s : Session Line Value) : Prop where
  waits : s.tracker.Waits codec
  charged :
    ∀ kept, s.tracker.keptFirst = some kept →
      attemptsFor kept.generation s.log ≤
        s.charged kept.generation
  limit : ∀ g, attemptsFor g s.log ≤ maxAttempts
  fresh :
    ∀ g, s.tracker.keptGeneration < g → attemptsFor g s.log = 0
  latest :
    ∀ kept, s.tracker.keptFirst = some kept →
      kept.generation ≤ s.tracker.keptGeneration

namespace Counted

/- A step that makes no attempt. -/
theorem extend
    {es : List (Effect Line Value)}
    (hCounted : s.Counted codec)
    (hLog : t.log = s.log ++ es)
    (hEs : ∀ kept, Effect.attempt kept ∉ es)
    (hGeneration :
      t.tracker.keptGeneration = s.tracker.keptGeneration)
    (hKept :
      ∀ kept, t.tracker.keptFirst = some kept →
        s.tracker.keptFirst = some kept ∧
          t.tracker.isInFlight codec kept.id = true ∧
          attemptsFor kept.generation s.log ≤
            t.charged kept.generation) :
    t.Counted codec := by
  have hSame :
      ∀ g, attemptsFor g t.log = attemptsFor g s.log := by
    intro g
    rw [hLog]
    exact attemptsFor_quiet hEs
  constructor
  case waits => exact fun kept hSome => (hKept kept hSome).2.1
  case charged =>
    intro kept hSome
    rw [hSame]
    exact (hKept kept hSome).2.2
  case limit =>
    intro g
    rw [hSame]
    exact hCounted.limit g
  case fresh =>
    intro g hg
    rw [hSame]
    exact hCounted.fresh g (hGeneration ▸ hg)
  case latest =>
    intro kept hSome
    rw [hGeneration]
    exact hCounted.latest kept (hKept kept hSome).1

/- The tracker keeps its requests. -/
theorem same
    {es : List (Effect Line Value)}
    (hCounted : s.Counted codec)
    (hLog : t.log = s.log ++ es)
    (hEs : ∀ kept, Effect.attempt kept ∉ es)
    (hGeneration :
      t.tracker.keptGeneration = s.tracker.keptGeneration)
    (hKept : t.tracker.keptFirst = s.tracker.keptFirst)
    (hInFlight : t.tracker.inFlight = s.tracker.inFlight)
    (hCharged : ∀ g, s.charged g = t.charged g) :
    t.Counted codec := by
  refine hCounted.extend hLog hEs hGeneration
    (fun kept hSome => ?_)
  rw [hKept] at hSome
  refine ⟨hSome, ?_, ?_⟩
  · unfold Tracker.isInFlight
    rw [hInFlight]
    exact hCounted.waits kept hSome
  · rw [← hCharged]
    exact hCounted.charged kept hSome

/- No request is kept any more. -/
theorem dropped
    {es : List (Effect Line Value)}
    (hCounted : s.Counted codec)
    (hLog : t.log = s.log ++ es)
    (hEs : ∀ kept, Effect.attempt kept ∉ es)
    (hGeneration :
      t.tracker.keptGeneration = s.tracker.keptGeneration)
    (hNone : t.tracker.keptFirst = none) :
    t.Counted codec :=
  hCounted.extend hLog hEs hGeneration (fun kept hSome => by
    rw [hNone] at hSome
    cases hSome)

/- The exit charges all that are allowed. -/
theorem exited
    {es : List (Effect Line Value)}
    (hCounted : s.Counted codec)
    (hLog : t.log = s.log ++ es)
    (hEs : ∀ kept, Effect.attempt kept ∉ es)
    (hGeneration :
      t.tracker.keptGeneration = s.tracker.keptGeneration)
    (hKept :
      ∀ kept, t.tracker.keptFirst = some kept →
        s.tracker.keptFirst = some kept ∧
          t.tracker.isInFlight codec kept.id = true)
    (hPhase : t.phase = .exited) :
    t.Counted codec := by
  refine hCounted.extend hLog hEs hGeneration
    (fun kept hSome => ?_)
  have hOld := hKept kept hSome
  refine ⟨hOld.1, hOld.2, ?_⟩
  unfold Session.charged
  rw [hPhase]
  exact hCounted.limit _

/- A line is shown that does not strand the kept request. -/
theorem shows
    {es : List (Effect Line Value)}
    {line : Line}
    (hCounted : s.Counted codec)
    (hSettled : s.Settled)
    (hStays : s.tracker.strands codec line = false)
    (hLog : t.log = s.log ++ es)
    (hEs : ∀ kept, Effect.attempt kept ∉ es)
    (hTracker :
      t.tracker = s.tracker.onDaemonLine codec line)
    (hCharged : ∀ g, s.charged g = t.charged g) :
    t.Counted codec := by
  have hOpen :
      s.tracker.keptFirst ≠ none →
        s.tracker.initialised = false := by
    intro hKept
    apply eq_false_of_ne_true
    exact fun hInit => hKept (hSettled.kept hInit)
  have hGeneration :
      t.tracker.keptGeneration = s.tracker.keptGeneration := by
    rcases Tracker.onDaemonLine_eq codec s.tracker line with
      ⟨_, _, _, hEq, _⟩
    rw [hTracker, hEq]
  refine hCounted.extend hLog hEs hGeneration
    (fun kept hSome => ?_)
  have hWaits := hCounted.waits.onDaemonLine hOpen hStays
  rw [← hTracker] at hWaits
  have hOld : s.tracker.keptFirst = some kept := by
    rcases Tracker.keptFirst_onDaemonLine codec s.tracker line
      with h | h <;> rw [← hTracker] at h
    · rw [← h, hSome]
    · rw [h] at hSome
      cases hSome
  refine ⟨hOld, hWaits kept hSome, ?_⟩
  rw [← hCharged]
  exact hCounted.charged kept hOld

/- A request that is newly kept has had no attempts. -/
theorem receive
    {line : Line}
    (hCounted : s.Counted codec) :
    (s.receive codec line).Counted codec := by
  rcases Tracker.onClientLine_eq codec s.tracker
    ⟨s.received, line⟩ with
    ⟨_, _, _, kept, generation, hEq, _, _, hKept, _⟩
  have hTracker : (s.receive codec line).tracker = _ := hEq
  have hKeptFirst :
      (s.receive codec line).tracker.keptFirst = kept := by
    rw [hTracker]
  have hGeneration :
      (s.receive codec line).tracker.keptGeneration =
        generation := by
    rw [hTracker]
  have hSame :
      ∀ g, attemptsFor g (s.receive codec line).log =
        attemptsFor g s.log :=
    fun g => attemptsFor_quiet (by simp)
  constructor
  case waits => exact hCounted.waits.onClientLine
  case charged =>
    intro k hSome
    rw [hSame]
    rw [hKeptFirst] at hSome
    rcases hKept with ⟨hOld, _⟩ | ⟨_, _, _, _, _, _, _, hNew⟩
    · exact hCounted.charged k (hOld.symm.trans hSome)
    · rw [hNew] at hSome
      cases hSome
      rw [hCounted.fresh _ (Nat.lt_succ_self _)]
      exact Nat.zero_le _
  case limit =>
    intro g
    rw [hSame]
    exact hCounted.limit g
  case fresh =>
    intro g hg
    rw [hSame]
    rw [hGeneration] at hg
    apply hCounted.fresh
    rcases hKept with ⟨_, hOld⟩ | ⟨_, _, _, _, _, _, hNew, _⟩ <;>
      omega
  case latest =>
    intro k hSome
    rw [hKeptFirst] at hSome
    rw [hGeneration]
    rcases hKept with
      ⟨hOld, hSameGen⟩ | ⟨_, _, _, _, _, _, hNewGen, hNew⟩
    · have hLe := hCounted.latest k (hOld.symm.trans hSome)
      omega
    · rw [hNew] at hSome
      cases hSome
      exact Nat.le_of_eq hNewGen.symm

/- An attempt counts against the request that it re-sends. -/
theorem begin
    (hCounted : s.Counted codec)
    (hLimited : s.Limited)
    (hPhase : s.phase = .round after attempts early .backoff) :
    ((s.record (.attempt (s.resends after))).at
      (.round after (attempts + 1) early
        .connect)).Counted codec := by
  have hLeft := hLimited.backoff _ _ _ hPhase
  have hCharged :
      ∀ kept, s.tracker.keptFirst = some kept →
        attemptsFor kept.generation s.log ≤
          if resendsKept after then attempts else 0 := by
    intro kept hSome
    have hOld := hCounted.charged kept hSome
    rwa [charged_of_round hPhase] at hOld
  have hAttempt :
      ∀ g, s.resends after = some g →
        resendsKept after = true ∧
          ∃ kept, s.tracker.keptFirst = some kept ∧
            kept.generation = g := by
    intro g hResends
    unfold resends at hResends
    split at hResends
    · rename_i hAfter
      refine ⟨by simpa [resendsKept] using hAfter, ?_⟩
      exact Option.map_eq_some_iff.mp hResends
    · cases hResends
  constructor
  case waits => exact hCounted.waits
  case charged =>
    intro kept hSome
    have hOld := hCharged kept hSome
    change attemptsFor kept.generation
      (s.log ++ [.attempt (s.resends after)]) ≤
        if resendsKept after then attempts + 1 else 0
    rw [attemptsFor_attempt]
    by_cases hG : s.resends after = some kept.generation
    · have hAfter := (hAttempt _ hG).1
      rw [if_pos hAfter] at hOld ⊢
      rw [if_pos hG]
      omega
    · rw [if_neg hG]
      split at hOld
      · rw [if_pos ‹_›]
        omega
      · rw [if_neg ‹_›]
        exact hOld
  case limit =>
    intro g
    change attemptsFor g
      (s.log ++ [.attempt (s.resends after)]) ≤ maxAttempts
    rw [attemptsFor_attempt]
    by_cases hG : s.resends after = some g
    · rcases hAttempt g hG with ⟨hAfter, kept, hSome, rfl⟩
      have hOld := hCharged kept hSome
      rw [if_pos hAfter] at hOld
      rw [if_pos hG]
      omega
    · rw [if_neg hG]
      exact hCounted.limit g
  case fresh =>
    intro g hg
    change attemptsFor g
      (s.log ++ [.attempt (s.resends after)]) = 0
    rw [attemptsFor_attempt, hCounted.fresh g hg]
    have hOther : s.resends after ≠ some g := by
      intro hG
      rcases hAttempt g hG with ⟨_, kept, hSome, rfl⟩
      exact Nat.not_lt.mpr (hCounted.latest kept hSome) hg
    rw [if_neg hOther]
  case latest => exact hCounted.latest

/-
  The pump shows an answer, and the request is no longer
  kept.
-/
theorem pumpMove
    (hCounted : s.Counted codec)
    (hSettled : s.Settled)
    (hStays : s.strands codec e = false)
    (hMove : PumpMove codec s e t) :
    t.Counted codec := by
  cases hMove with
  | «show» line hPump =>
      exact hCounted.shows hSettled
        (strands_of_show hStays hPump) rfl (by simp) rfl
        (fun _ => rfl)
  | read line _ | send line _ =>
      exact hCounted.same rfl (by simp) rfl rfl rfl
        (fun _ => rfl)
  | _ =>
      exact hCounted.same (List.append_nil _).symm (by simp) rfl
        rfl rfl (fun _ => rfl)

/- A broken attempt counts as one. -/
theorem broken
    (hCounted : s.Counted codec)
    (hBroken : Broken s after stage u) :
    u.Counted codec := by
  cases hBroken with
  | answered line _ =>
      exact hCounted.same rfl (by simp) rfl rfl rfl
        (fun _ => rfl)
  | _ =>
      exact hCounted.same (List.append_nil _).symm (by simp) rfl
        rfl rfl (fun _ => rfl)

/- A failed one too, and the third ends the round. -/
theorem failed
    (hCounted : u.Counted codec)
    (hSettled : u.Settled)
    (hPhase : u.phase = .round after attempts early stage)
    (hFailed : Failed u after attempts t) :
    t.Counted codec := by
  cases hFailed with
  | gaveUp _ =>
      exact hCounted.exited rfl (by simp) rfl
        (fun kept hSome => ⟨hSome, hCounted.waits kept hSome⟩) rfl
  | pending message _ hInitialised =>
      exact hCounted.dropped rfl (by simp) rfl
        (hSettled.kept hInitialised)
  | retry early' _ =>
      refine hCounted.same (List.append_nil _).symm (by simp) rfl
        rfl rfl (fun g => ?_)
      rw [charged_of_round hPhase]
      rfl

/- What was held may be the answer. -/
theorem takeHeld
    (hCounted : s.Counted codec)
    (hSettled : s.Settled)
    (hStays :
      ∀ line, s.held = some line →
        s.tracker.strands codec line = false) :
    (s.takeHeld codec).Counted codec := by
  rcases s.takeHeld_eq codec with ⟨es, tracker, hEq, hHeld⟩
  rw [hEq]
  rcases hHeld with ⟨_, hNil, hSame⟩ | ⟨line, hLine, hEs, hShown⟩
  · rw [hNil, hSame]
    exact hCounted.same rfl (by simp) rfl rfl rfl
      (fun _ => rfl)
  · rw [hEs]
    exact hCounted.shows hSettled (hStays line hLine) rfl
      (by simp) hShown (fun _ => rfl)

/- What a loss finds used is what counts against the request. -/
theorem attemptsUsed
    {kept : KeptRequest Line Value}
    (hCounted : s.Counted codec)
    (hKept : s.tracker.keptFirst = some kept) :
    s.attemptsUsed codec = pendingFor s.pending kept.generation := by
  unfold Session.attemptsUsed pendingFor
  cases s.pending with
  | some p =>
      dsimp only
      unfold ResendPending.attemptsCarried
      rw [hCounted.waits.keptInFlight, hKept, Option.any_some]
      simp [eq_comm]
  | none => rfl

/- A loss charges what the connection has cost. -/
theorem lost
    (hCounted : u.Counted codec)
    (hPhase : u.phase.connected = true)
    (hLost : Lost codec u t) :
    t.Counted codec := by
  have hFirst := hCounted.waits.keptInFlight
  cases hLost with
  | wait hKept =>
      rw [hFirst] at hKept
      exact hCounted.dropped rfl (by simp) rfl hKept
  | exit kept hKept _ =>
      rw [hFirst] at hKept
      refine hCounted.exited (List.append_assoc _ _ _) (by simp)
        rfl (fun kept' hSome => ?_) rfl
      change u.tracker.keptFirst = some kept' at hSome
      rw [hKept] at hSome
      cases hSome
      exact ⟨hKept, Tracker.isInFlight_takeInFlightExcept
        (hCounted.waits kept hKept)⟩
  | now kept hKept hUsed =>
      rw [hFirst] at hKept
      rw [reconnectNow_eq _ _ hUsed]
      refine hCounted.extend rfl (by simp) rfl
        (fun kept' hSome => ?_)
      change u.tracker.keptFirst = some kept' at hSome
      rw [hKept] at hSome
      cases hSome
      refine ⟨hKept, Tracker.isInFlight_takeInFlightExcept
        (hCounted.waits kept hKept), ?_⟩
      have hOld := hCounted.charged kept hKept
      rw [charged_of_connected hPhase,
        ← hCounted.attemptsUsed hKept] at hOld
      have hResends :
          resendsKept (some (if kept.isInitialize then
            .replayForward
          else
            .resendKept)) = true := by
        cases kept.isInitialize <;> rfl
      refine Nat.le_trans hOld (Nat.le_of_eq ?_)
      exact ((charged_of_round rfl).trans (if_pos hResends)).symm

/- A connection is adopted with no response to show. -/
theorem adopt
    {key : String}
    (hCounted : u.Counted codec)
    (hCharged :
      ∀ kept, u.tracker.keptFirst = some kept →
        attemptsFor kept.generation u.log ≤
          if after = some .resendKept then attempts else 0) :
    (u.adopt codec after attempts key none).Counted codec := by
  rcases u.adopt_eq codec after attempts key none with
    ⟨es, tracker, pending, hEq, hEs, hTracker, hPending⟩
  have hQuiet : ∀ kept, Effect.attempt kept ∉ es := by
    intro kept hMem
    rcases hEs _ hMem with h | ⟨_, _, _, h⟩ <;> cases h
  rcases hTracker with ⟨hSame, -⟩ | ⟨line, hSome, -⟩
  · rw [hEq, hSame]
    refine hCounted.extend rfl hQuiet rfl (fun kept hKept => ?_)
    change u.tracker.keptFirst = some kept at hKept
    refine ⟨hKept, hCounted.waits kept hKept, ?_⟩
    have hOld := hCharged kept hKept
    change _ ≤ pendingFor pending kept.generation
    rw [hPending, hSame, hKept]
    split at hOld
    · rw [if_pos ‹_›]
      simpa [pendingFor] using hOld
    · exact Nat.le_trans hOld (Nat.zero_le _)
  · cases hSome

/- The response that is shown has answered the kept request. -/
theorem adoptWith
    {key : String}
    {line : Line}
    (hCounted : u.Counted codec)
    (hAnswered :
      (u.tracker.onDaemonLine codec line).keptFirst = none)
    (hAfter : after ≠ none) :
    (u.adopt codec after attempts key
      (some line)).Counted codec := by
  rcases u.adopt_eq codec after attempts key (some line) with
    ⟨es, tracker, pending, hEq, hEs, hTracker, _⟩
  have hQuiet : ∀ kept, Effect.attempt kept ∉ es := by
    intro kept hMem
    rcases hEs _ hMem with h | ⟨_, _, _, h⟩ <;> cases h
  rcases hTracker with
    ⟨-, hNone, -⟩ | ⟨line', hSome, -, hShown, -⟩
  · rcases hNone with hNone | hNone
    · cases hNone
    · exact absurd hNone hAfter
  · cases hSome
    have hGeneration :
        tracker.keptGeneration = u.tracker.keptGeneration := by
      rcases Tracker.onDaemonLine_eq codec u.tracker line with
        ⟨_, _, _, hLine, _⟩
      rw [hShown, hLine]
    rw [hEq]
    exact hCounted.dropped rfl hQuiet hGeneration
      (hShown ▸ hAnswered)

end Counted

/- A handshake is replayed only once it has been accepted. -/
theorem keptFirst_of_replaying
    (hSettled : s.Settled)
    (hRepeats : s.Repeats codec)
    (hReplaying : s.Replaying codec)
    (hPhase : s.phase.replaying = true) :
    s.tracker.keptFirst = none := by
  rcases hReplaying.started hPhase with ⟨_, _, _, _, hRound⟩
  exact hSettled.kept (hRepeats.replay _ _ _ hRound).1

/- The response that a re-sent `initialize` gets answers it. -/
theorem keptFirst_of_outcome
    {key : String} {id : Value} {line : Line} {exe : Exe}
    {outcome : Outcome}
    (hWaits : s.tracker.Waits codec)
    (hSettled : s.Settled)
    (hStaged : s.Staged)
    (hStays : s.strands codec (.answer line exe) = false)
    (hPhase :
      s.phase =
        .round after attempts early (.resendResponse key id))
    (hOutcome : responseOutcome codec line id = some outcome) :
    (s.tracker.onDaemonLine codec line).keptFirst = none := by
  rcases (hStaged.resent _ _ _ _ _ hPhase rfl).2 with
    ⟨kept, hKept, rfl⟩
  have hLine : s.tracker.strands codec line = false := by
    unfold strands showing at hStays
    simp only [hPhase, hOutcome, Option.map_some,
      Option.any_some] at hStays
    exact hStays
  have hOpen : s.tracker.initialised = false := by
    apply eq_false_of_ne_true
    intro hInit
    rw [hSettled.kept hInit] at hKept
    cases hKept
  unfold responseOutcome at hOutcome
  split at hOutcome
  · rename_i got result error hResponse
    split at hOutcome
    · cases hOutcome
    · rename_i hKey
      exact Tracker.keptFirst_of_answered hWaits hOpen hLine
        hKept hResponse (not_not.mp hKey).symm
  · cases hOutcome

namespace Counted

/- An adopted attempt leaves its count to the connection. -/
theorem adopted
    {key : String}
    {response : Option Line}
    (hCounted : s.Counted codec)
    (hSettled : s.Settled)
    (hRepeats : s.Repeats codec)
    (hReplaying : s.Replaying codec)
    (hStaged : s.Staged)
    (hStays : s.strands codec e = false)
    (hPhase : s.phase = .round after attempts early stage)
    (hAdopted : Adopted codec s after stage key response u)
    (hNext :
      s.next setup codec e =
        some (u.adopt codec after attempts key response)) :
    (u.adopt codec after attempts key response).Counted
      codec := by
  have hCharged :
      ∀ kept, s.tracker.keptFirst = some kept →
        attemptsFor kept.generation s.log ≤
          if resendsKept after then attempts else 0 := by
    intro kept hSome
    have hOld := hCounted.charged kept hSome
    rwa [charged_of_round hPhase] at hOld
  have hNone :
      s.phase.replaying = true →
        ∀ kept, s.tracker.keptFirst ≠ some kept := by
    intro hReplays kept hSome
    rw [keptFirst_of_replaying hSettled hRepeats hReplaying
      hReplays] at hSome
    cases hSome
  cases hAdopted with
  | hello _ hAfter =>
      have hConn :
          ({ s with conn := s.conn + 1 }).Counted codec :=
        hCounted.same (List.append_nil _).symm (by simp) rfl rfl
          rfl (fun _ => rfl)
      refine hConn.adopt (fun kept hSome => ?_)
      have hOld := hCharged kept hSome
      rcases hAfter with rfl | rfl <;> exact hOld
  | replayed _ =>
      exact hCounted.adopt (fun kept hSome =>
        absurd hSome (hNone (by rw [hPhase]; rfl) kept))
  | answered _ id line _ =>
      have hHear : (s.hear line).Counted codec :=
        hCounted.same rfl (by simp) rfl rfl rfl (fun _ => rfl)
      exact hHear.adopt (fun kept hSome =>
        absurd hSome (hNone (by rw [hPhase]; rfl) kept))
  | resent _ =>
      have hAfter := hStaged.resend _ _ _ _ hPhase
      refine hCounted.adopt (fun kept hSome => ?_)
      have hOld := hCharged kept hSome
      rw [hAfter] at hOld ⊢
      exact hOld
  | forwarded _ id line outcome hOutcome =>
      rcases Vouched.adopt_of_resendResponse hPhase hNext
        Vouched.phase_adopt with
        ⟨line', exe, outcome', rfl, hOutcome', hEq⟩
      have hHear : (s.hear line').Counted codec :=
        hCounted.same rfl (by simp) rfl rfl rfl (fun _ => rfl)
      have hAnswered :
          (s.tracker.onDaemonLine codec line').keptFirst =
            none :=
        keptFirst_of_outcome hCounted.waits hSettled hStaged
          hStays hPhase hOutcome'
      have hForward := hStaged.resent _ _ _ _ _ hPhase rfl
      rw [hEq]
      exact hHear.adoptWith hAnswered
        (by rw [hForward.1]; simp)

/- The main loop, case by case, where no line strands. -/
theorem mainMove
    (hCounted : s.Counted codec)
    (hReach : (machine setup codec).Reachable s)
    (hStays : s.strands codec e = false)
    (hNext : s.next setup codec e = some t)
    (hMove : MainMove codec s e t) :
    t.Counted codec := by
  have hSettled : s.Settled := .of_reachable hReach
  have hLimited : s.Limited := .of_reachable hReach
  cases hMove with
  | hop e phase hHop =>
      cases hHop with
      | stdoutFailed =>
          exact hCounted.exited (List.append_nil _).symm (by simp)
            rfl (fun kept hSome =>
              ⟨hSome, hCounted.waits kept hSome⟩) rfl
      | replayed _ _ _ _ _ _ hPhase | resent _ _ _ _ _ hPhase =>
          refine hCounted.same (List.append_nil _).symm (by simp)
            rfl rfl rfl (fun g => ?_)
          rw [charged_of_round hPhase]
          rfl
      | flushed hPhase _ | flushing hPhase | forwarding hPhase
      | flushFailed hPhase | forwardFailed hPhase
      | lost hPhase _ | eof hPhase | blocked hPhase _
      | woken hPhase _ =>
          refine hCounted.same (List.append_nil _).symm (by simp)
            rfl rfl rfl (fun g => ?_)
          rw [charged_of_connected (by rw [hPhase]; rfl)]
          rfl
  | close e _ =>
      exact hCounted.exited rfl (by simp) rfl
        (fun kept hSome => ⟨hSome, hCounted.waits kept hSome⟩) rfl
  | wait line _ _ _ _ _ =>
      have hReceive : (s.receive codec line).Counted codec :=
        hCounted.receive
      unfold waitLine
      split
      · exact hReceive
      · exact hReceive.same (List.append_nil _).symm (by simp)
          rfl rfl rfl (fun _ => rfl)
  | begin after attempts early hPhase =>
      exact hCounted.begin hLimited hPhase
  | replay key exe attempts early line id hPhase _ _ =>
      refine hCounted.same rfl (by simp) rfl rfl rfl (fun g => ?_)
      rw [charged_of_round hPhase]
      rfl
  | resend key exe after attempts early stage kept hPhase _ _ =>
      refine hCounted.same rfl (by simp) rfl rfl rfl (fun g => ?_)
      rw [charged_of_round hPhase]
      rfl
  | skip line exe _ _ _ _ _ _ _ _ =>
      exact hCounted.same rfl (by simp) rfl rfl rfl
        (fun _ => rfl)
  | replayInitialized line exe after attempts early _ _ _ hPhase
      _ =>
      refine hCounted.same (List.append_assoc _ _ _) (by simp) rfl
        rfl rfl (fun g => ?_)
      rw [charged_of_round hPhase]
      rfl
  | fail e after attempts early stage u t hPhase _ hBroken
      hFailed =>
      have hU : u.Settled ∧ u.phase = s.phase := by
        cases hBroken <;>
          exact ⟨hSettled.same rfl rfl
            (fun _ _ _ h => ⟨_, _, _, h⟩), rfl⟩
      exact (hCounted.broken hBroken).failed hU.1
        (hU.2.trans hPhase) hFailed
  | adopt e after attempts early stage key response u hPhase
      hAdopted =>
      exact hCounted.adopted hSettled (.of_reachable hReach)
        (.of_reachable hReach) (.of_reachable hReach) hStays hPhase
        hAdopted hNext
  | flushLine line queue hPhase _ =>
      refine hCounted.same rfl (by simp) rfl rfl rfl (fun g => ?_)
      rw [charged_of_connected (by rw [hPhase]; rfl)]
      rfl
  | forwardLine line hPhase =>
      have hReceive : (s.receive codec line).Counted codec :=
        hCounted.receive
      refine hReceive.same rfl (by simp) rfl rfl rfl (fun g => ?_)
      have hSame : (s.receive codec line).phase = .forward :=
        hPhase
      rw [charged_of_connected (by rw [hSame]; rfl)]
      rfl
  | waiter hPhase =>
      refine hCounted.same (List.append_nil _).symm (by simp) rfl
        rfl rfl (fun g => ?_)
      rw [charged_of_connected (by rw [hPhase]; rfl)]
      rfl
  | loss t hPhase hPump hLost =>
      have hTaken : (s.takeHeld codec).Counted codec :=
        hCounted.takeHeld hSettled
          (fun _ hHeld =>
            strands_of_held hStays hPhase hPump hHeld)
      have hStill : (s.takeHeld codec).phase = .loss := by
        rcases s.takeHeld_eq codec with ⟨_, _, hEq, _⟩
        rw [hEq]
        exact hPhase
      exact hTaken.lost (by rw [hStill]; rfl) hLost
  | awaitLine line hPhase =>
      have hReceive : (s.receive codec line).Counted codec :=
        hCounted.receive
      have hNone : s.pending = none :=
        hLimited.away (by rw [hPhase]; rfl)
      unfold awaitLine
      split
      · refine hReceive.same (List.append_nil _).symm (by simp)
          rfl rfl rfl (fun g => ?_)
        have hZero : (s.receive codec line).charged g = 0 :=
          charged_of_none hPhase hNone
        rw [hZero]
        refine ((charged_of_round rfl).trans ?_).symm
        split <;> rfl
      · exact hReceive

end Counted

------------------------------------------------------------
-- The Last Attempt
------------------------------------------------------------

/- The process ends with an error. -/
def Ends (t : Session Line Value) : Prop :=
  t.phase = .exited ∧ t.log.getLast? = some (.exit 1)

/- An exit is an end. -/
theorem ends_exit (s : Session Line Value) : (s.exit 1).Ends :=
  ⟨rfl, List.getLast?_concat⟩

section Last

variable {kept : KeptRequest Line Value}
variable (hCounted : s.Counted codec)
variable (hSettled : s.Settled)
variable (hKept : s.tracker.keptFirst = some kept)
variable
  (hLast : attemptsFor kept.generation s.log = maxAttempts)

include hCounted hSettled hKept hLast in
/- The attempt that fails was the last one for the request. -/
theorem ends_of_failed
    {f : Failure} {exe : Exe}
    (hNext : s.next setup codec (.failed f exe) = some t) :
    t.Ends := by
  have hOpen : s.tracker.initialised = false := by
    apply eq_false_of_ne_true
    intro hInit
    rw [hSettled.kept hInit] at hKept
    cases hKept
  have hMain : s.mainNext setup codec (.failed f exe) = some t :=
    hNext
  cases hPhase : s.phase
  case round after attempts early stage =>
    simp only [mainNext, hPhase, roundNext,
      Option.map_eq_some_iff] at hMain
    rcases hMain with ⟨error, -, rfl⟩
    have hCharged := hCounted.charged kept hKept
    rw [charged_of_round hPhase, hLast] at hCharged
    cases after with
    | none => cases hCharged
    | some after =>
        have hUsed : maxAttempts ≤ attempts := by
          split at hCharged
          · exact hCharged
          · cases hCharged
        unfold attemptFailed
        rw [if_pos (by simp [hUsed])]
        dsimp only
        unfold roundFailed
        rw [hOpen, if_neg (by simp)]
        exact ends_exit s
  all_goals simp [mainNext, hPhase] at hMain

include hCounted hSettled hKept hLast in
/- The connection is lost, and the request is still kept. -/
theorem ends_of_loss
    (hStays : s.strands codec .step = false)
    (hPhase : s.phase = .loss)
    (hNext : s.next setup codec .step = some t)
    (hStill : t.tracker.keptFirst ≠ none) :
    t.Ends := by
  have hMain : s.mainNext setup codec .step = some t := hNext
  simp only [mainNext, hPhase] at hMain
  split at hMain
  · rename_i hPump
    have hLoss : t = s.onLoss codec := (Option.some.inj hMain).symm
    have hTaken : (s.takeHeld codec).Counted codec :=
      hCounted.takeHeld hSettled
        (fun _ hHeld => strands_of_held hStays hPhase hPump hHeld)
    have hLost : Lost codec (s.takeHeld codec) (s.onLoss codec) :=
      lost_onLoss s
    rw [← hLoss] at hLost
    rcases s.takeHeld_eq codec with ⟨es, tracker, hEq, hHeld⟩
    have hConnected :
        (s.takeHeld codec).phase.connected = true := by
      rw [hEq]
      change s.phase.connected = true
      rw [hPhase]
      rfl
    have hFirst :
        (s.takeHeld codec).tracker.keptFirst = some kept ∨
          (s.takeHeld codec).tracker.keptFirst = none := by
      rw [hEq]
      rcases hHeld with ⟨_, _, rfl⟩ | ⟨line, _, _, rfl⟩
      · exact Or.inl hKept
      · rw [← hKept]
        exact Tracker.keptFirst_onDaemonLine codec s.tracker line
    cases hLost with
    | wait hNone =>
        rw [hTaken.waits.keptInFlight] at hNone
        exact absurd hNone hStill
    | exit kept' _ _ => exact ends_exit _
    | now kept' hKept' hUsed =>
        rw [hTaken.waits.keptInFlight] at hKept'
        have hSame : kept' = kept := by
          rcases hFirst with h | h <;> rw [h] at hKept' <;>
            cases hKept'
          rfl
        have hCharged := hTaken.charged kept' hKept'
        rw [charged_of_connected hConnected,
          ← hTaken.attemptsUsed hKept'] at hCharged
        have hMore :
            maxAttempts ≤
              attemptsFor kept'.generation
                (s.takeHeld codec).log := by
          rw [hSame, ← hLast]
          exact (log_takeHeld codec s).sublist.countP_le
        exact absurd hUsed
          (Nat.not_lt.mpr (Nat.le_trans hMore hCharged))
  · cases hMain

end Last

end Session

------------------------------------------------------------
-- All Attempts
------------------------------------------------------------

/-
  The runs in which no line of a daemon answers the id of the
  kept request and leaves it kept.
-/
def unstranded
    (setup : Setup)
    (codec : Codec Line Value) :
    Machine (Session Line Value) (Event Line) :=
  (machine setup codec).restrict
    (fun s e => s.strands codec e = false)

/-
  The run lemma, for runs whose steps all meet the
  condition.
-/
theorem Session.Counted.of_unstranded
    {setup : Setup} {codec : Codec Line Value}
    {s : Session Line Value}
    (hReach : (unstranded setup codec).Reachable s) :
    s.Counted codec := by
  rcases hReach with ⟨s₀, es, hStart, hRun⟩
  have hStart : s₀ = .start := hStart
  subst hStart
  induction hRun with
  | nil =>
      constructor <;>
        simp [start, Tracker.default, Tracker.Waits, attemptsFor]
  | @snoc s t es e hFirst hStep ih =>
      have hSource : (machine setup codec).Reachable s :=
        ⟨_, _, rfl, hFirst.of_restrict⟩
      rcases Session.next_eq_some hStep.1 with hMove | hMove
      · exact ih.pumpMove (.of_reachable hSource) hStep.2 hMove
      · exact ih.mainMove hSource hStep.2 hStep.1 hMove

/-
  Every call of `run_round` begins with an attempt left, and
  one generation of the kept request is re-sent by no more
  attempts than there are in a round, over the whole run.  The
  failure of the last one ends the process, and so does a loss
  that leaves the request kept.
-/
theorem attempts_bounded
    {setup : Setup} {codec : Codec Line Value}
    {s : Session Line Value}
    (hReach : (machine setup codec).Reachable s) :
    (∀ after used early,
      s.phase = .round after used early .backoff →
        used < maxAttempts) ∧
      ((unstranded setup codec).Reachable s →
        (∀ g, attemptsFor g s.log ≤ maxAttempts) ∧
          ∀ kept, s.tracker.keptFirst = some kept →
            attemptsFor kept.generation s.log = maxAttempts →
              (∀ f exe t,
                (unstranded setup codec).step s (.failed f exe)
                    t →
                  t.Ends) ∧
                ∀ t, (unstranded setup codec).step s .step t →
                  s.phase = .loss →
                    t.tracker.keptFirst ≠ none →
                      t.Ends) := by
  have hLimited : s.Limited := .of_reachable hReach
  have hSettled : s.Settled := .of_reachable hReach
  refine ⟨hLimited.backoff, fun hUnstranded => ?_⟩
  have hCounted : s.Counted codec := .of_unstranded hUnstranded
  refine ⟨hCounted.limit, fun kept hKept hLast => ⟨?_, ?_⟩⟩
  · intro f exe t hStep
    exact Session.ends_of_failed hCounted hSettled hKept hLast
      hStep.1
  · intro t hStep hPhase hStill
    exact Session.ends_of_loss hCounted hSettled hKept hLast
      hStep.2 hPhase hStep.1 hStill

/- A daemon is reached, and its connection is lost. -/
private def reached : List (Event (Envelope String)) :=
  [.begin, .connected "k" ⟨true, none⟩]

/- An attempt that breaks. -/
private def broken : List (Event (Envelope String)) :=
  [.cut, .pump, .lost]

/- The first request, and the attempts to re-send it. -/
private def requested : List (Event (Envelope String)) :=
  reached ++ [.step, .client (.call "1" "tools/list"), .written]

/- One that sends the request again. -/
private def resent : List (Event (Envelope String)) :=
  broken ++ [.step] ++ reached ++ [.written, .step]

/- Three attempts, and the next loss ends the session. -/
theorem attempts_bounded_third :
    ∃ s t : Session (Envelope String) String,
      attemptsFor 1 s.log = maxAttempts ∧
        s.phase = .loss ∧
          (unstranded .sample .members).step s .step t ∧
            t.Ends := by
  let events : List (Event (Envelope String)) :=
    requested ++ resent ++ resent ++ resent ++ broken
  let test : Session (Envelope String) String → Bool := fun s =>
    decide (attemptsFor 1 s.log = maxAttempts) &&
      decide (s.phase = .loss) && !s.strands .members .step &&
        s.tracker.keptFirst.any
          (fun kept => kept.generation = 1) &&
          (s.next .sample .members .step).any
            (fun t => t.tracker.keptFirst.isSome)
  have hComputed :
      (events.foldlM
        (Machine.checked (Session.next .sample .members)
          (fun s e => !s.strands .members e)) .start).any test =
            true := by
    decide +kernel
  rcases Machine.Run.restrict_of_any (fun s => s = .start) _ _ _
    (fun s e h => (Bool.not_eq_true' _).mp h)
    hComputed with ⟨s, hRun, hTest⟩
  simp only [test, Bool.and_eq_true, decide_eq_true_eq,
    Bool.not_eq_true', Option.any_eq_true] at hTest
  rcases hTest with
    ⟨⟨⟨⟨hLast, hPhase⟩, hStays⟩, kept, hKept, hFirst⟩, t, hNext,
      hStill⟩
  have hStep : (unstranded .sample .members).step s .step t :=
    ⟨hNext, hStays⟩
  have hBounded :=
    (attempts_bounded ⟨_, events, rfl, hRun.of_restrict⟩).2
      ⟨_, events, rfl, hRun⟩
  have hEnds := (hBounded.2 kept hKept (hFirst ▸ hLast)).2 t hStep
    hPhase (Option.isSome_iff_ne_none.mp hStill)
  exact ⟨s, t, hLast, hPhase, hStep, hEnds⟩

/-
  A `ping` takes over the id of the kept request, which was
  re-sent three times, and is answered.  The request stays
  kept, and the next request with its id has it re-sent again.
-/
theorem attempts_exceeded :
    ¬ ∀ s : Session (Envelope String) String,
      (machine .sample .members).Reachable s →
        ∀ g, attemptsFor g s.log ≤ maxAttempts := by
  intro hAll
  rcases run_of_any .sample .members
    (requested ++ resent ++ resent ++ resent ++
      [.client (.call "1" "ping"), .written, .read (.answer "1"),
        .credit true, .pump, .pump, .pump, .pump, .pump] ++
      broken ++ [.step, .client (.call "1" "tools/list")] ++
      reached ++ [.step, .written, .step] ++ broken ++
      [.step, .begin])
    (fun s => decide (maxAttempts < attemptsFor 1 s.log))
    (by decide +kernel) with ⟨s, hReach, hMore⟩
  exact Nat.not_lt.mpr (hAll s hReach 1) (of_decide_eq_true hMore)

end Proxy

end Ferrex
