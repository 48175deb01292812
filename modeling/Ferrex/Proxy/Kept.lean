import Mathlib.Data.List.Induction
import Ferrex.Lib.History
import Ferrex.Proxy.Readers

/-
  The tracker over whole runs: what its fields say of the
  lines that it has seen, and which request is the kept one.

  Main declarations:
    * `TrackerEvent`, `Tracker.after`
    * `Tracker.Invariant`
    * `Tracker.FirstSince`
    * `Tracker.tracker_invariant`
    * `Tracker.tracker_invariant_fails`
-/

------------------------------------------------------------
-- Events
------------------------------------------------------------

namespace Ferrex

namespace Proxy

/- The entry points of a tracker. -/
inductive TrackerEvent (Line Value : Type)
| client (line : Numbered Line)
| daemon (line : Line)
| takeInFlight
| takeInFlightExcept (keep : Value)
| setLink (link : Link)
| markReplayStarted
deriving DecidableEq

namespace Tracker

variable {Line Value : Type}

section Runs

variable (codec : Codec Line Value)

def step
    (t : Tracker Line Value) :
    TrackerEvent Line Value → Tracker Line Value
| .client line => (t.onClientLine codec line).1
| .daemon line => t.onDaemonLine codec line
| .takeInFlight => t.takeInFlight.1
| .takeInFlightExcept keep => (t.takeInFlightExcept codec keep).1
| .setLink link => t.setLink link
| .markReplayStarted => t.markReplayStarted

/- The tracker of a session after these events. -/
def after
    (es : List (TrackerEvent Line Value)) :
    Tracker Line Value :=
  es.foldl (step codec) default

/- A request that counts for the lifecycle, as it is kept. -/
def lifecycle :
    TrackerEvent Line Value →
      Option (Value × Numbered Line × Bool)
| .client line =>
    match codec.request line.line with
    | some (id, method) =>
        if countsForLifecycle method then
          some (id, line, method = initializeMethod)
        else
          none
    | none => none
| _ => none

end Runs

def KeptRequest.request
    (kept : KeptRequest Line Value) :
    Value × Numbered Line × Bool :=
  (kept.id, kept.line, kept.isInitialize)

section Relations

variable (codec : Codec Line Value)

/- The event makes this request the kept one. -/
def Keeps
    (before : List (TrackerEvent Line Value))
    (e : TrackerEvent Line Value)
    (kept : KeptRequest Line Value) : Prop :=
  (after codec before).keptFirst ≠ some kept ∧
    (after codec (before ++ [e])).keptFirst = some kept

/-
  The start, or a line that answers the request that was kept
  before it, and that was in flight, with an error.
-/
def boundary
    (es : List (TrackerEvent Line Value)) : Bool :=
  match es.getLast? with
  | none => true
  | some (.daemon line) =>
      match (after codec es.dropLast).keptFirst with
      | some kept =>
          (after codec es.dropLast).isInFlight codec kept.id &&
            decide (responseOutcome codec line kept.id =
              some .error)
      | none => false
  | some _ => false

/-
  The kept request is the first one of the lifecycle after
  the last boundary: the start, or the last error for one
  that was kept.
-/
def FirstSince
    (es : List (TrackerEvent Line Value)) : Prop :=
  ∃ n, n ≤ es.length ∧ boundary codec (es.take n) = true ∧
    (∀ m, n < m → m ≤ es.length →
      boundary codec (es.take m) = false) ∧
    (after codec es).keptFirst.map KeptRequest.request =
      ((es.drop n).filterMap (lifecycle codec)).head?

/- The five relations of the fields with the history. -/
structure Invariant
    (es : List (TrackerEvent Line Value)) : Prop where
  initialised :
    ∀ before rest, es = before ++ rest →
      (after codec before).initialised = true →
        (after codec es).initialised = true
  kept :
    (after codec es).keptFirst ≠ none →
      (after codec es).initialised = false
  cached :
    ∀ before rest, es = before ++ rest →
      (after codec before).initialised = true →
        (after codec es).cachedInitialize =
          (after codec before).cachedInitialize
  generation :
    ∀ before e kept earlier e' rest kept',
      es = before ++ [e] → Keeps codec before e kept →
        before = earlier ++ e' :: rest →
          Keeps codec earlier e' kept' →
            kept'.generation < kept.generation
  first :
    (after codec es).initialised = false → FirstSince codec es

/-
  No error takes the kept request for another one in flight,
  whose id equals its id but prints differently.
-/
def Unmistaken
    (before : List (TrackerEvent Line Value))
    (e : TrackerEvent Line Value) : Prop :=
  ∀ line, e = .daemon line →
    (after codec before).initialised = false →
      ∀ id, ¬ Mistaken codec (after codec before) line id

end Relations

------------------------------------------------------------
-- One Event
------------------------------------------------------------

variable {codec : Codec Line Value} {t : Tracker Line Value}
variable {e : TrackerEvent Line Value}
variable {es before rest : List (TrackerEvent Line Value)}

theorem after_snoc
    (codec : Codec Line Value)
    (es : List (TrackerEvent Line Value))
    (e : TrackerEvent Line Value) :
    after codec (es ++ [e]) = (after codec es).step codec e := by
  rw [after, List.foldl_append]
  rfl

theorem initialised_step
    (hInitialised : t.initialised = true) :
    (t.step codec e).initialised = true := by
  cases e with
  | client line =>
      exact initialised_onClientLine.trans hInitialised
  | daemon line => exact initialised_onDaemonLine hInitialised
  | takeInFlight => exact hInitialised
  | takeInFlightExcept keep => exact hInitialised
  | setLink link => exact hInitialised
  | markReplayStarted => exact hInitialised

/- An initialised session caches no `initialize`. -/
theorem cachedInitialize_step
    (hInitialised : t.initialised = true) :
    (t.step codec e).cachedInitialize = t.cachedInitialize := by
  cases e with
  | client line =>
      rcases onClientLine_eq codec t line with
        ⟨_, cached, _, _, _, hEq, hCached, _⟩
      rw [step, hEq]
      rcases hCached with hSame | ⟨hNot, _⟩
      · exact hSame
      · rw [hInitialised] at hNot
        cases hNot
  | daemon line =>
      rcases onDaemonLine_eq codec t line with
        ⟨_, _, _, hEq, _⟩
      rw [step, hEq]
  | takeInFlight => rfl
  | takeInFlightExcept keep => rfl
  | setLink link => rfl
  | markReplayStarted => rfl

/- What an event does to the kept request. -/
theorem keptFirst_step
    (codec : Codec Line Value)
    (t : Tracker Line Value)
    (e : TrackerEvent Line Value) :
    ((t.step codec e).keptGeneration = t.keptGeneration ∧
      ((t.step codec e).initialised = t.initialised ∧
          (t.step codec e).keptFirst = t.keptFirst ∨
        (t.step codec e).keptFirst = none)) ∨
    (t.initialised = false ∧
      (t.step codec e).initialised = false ∧
      (t.step codec e).keptGeneration = t.keptGeneration + 1 ∧
      ∃ kept, (t.step codec e).keptFirst = some kept ∧
        kept.generation = t.keptGeneration + 1) := by
  cases e with
  | client line =>
      have hInitialised :
          (t.onClientLine codec line).1.initialised =
            t.initialised :=
        initialised_onClientLine
      rcases onClientLine_eq codec t line with
        ⟨_, _, _, kept, generation, hEq, _, _, hKept, _⟩
      rw [step]
      rw [hEq] at hInitialised ⊢
      rcases hKept with ⟨rfl, rfl⟩ | hKeeping
      · exact Or.inl ⟨rfl, Or.inl ⟨rfl, rfl⟩⟩
      · rcases hKeeping with
          ⟨id, method, _, hNot, _, _, hGen, hSome⟩
        exact Or.inr ⟨hNot, hNot, hGen, _, hSome, rfl⟩
  | daemon line =>
      rcases onDaemonLine_eq codec t line with
        ⟨_, _, kept, hEq, hWhich⟩
      rw [step, hEq]
      refine Or.inl ⟨rfl, ?_⟩
      rcases hWhich with hSame | ⟨_, hNone⟩ | ⟨_, hNone⟩
      · exact Or.inl hSame
      · exact Or.inr hNone
      · exact Or.inr hNone
  | takeInFlight => exact Or.inl ⟨rfl, Or.inl ⟨rfl, rfl⟩⟩
  | takeInFlightExcept keep =>
      exact Or.inl ⟨rfl, Or.inl ⟨rfl, rfl⟩⟩
  | setLink link => exact Or.inl ⟨rfl, Or.inl ⟨rfl, rfl⟩⟩
  | markReplayStarted => exact Or.inl ⟨rfl, Or.inl ⟨rfl, rfl⟩⟩

/- The first request of the lifecycle is kept. -/
theorem keptFirst_client
    (line : Numbered Line)
    (hNot : t.initialised = false) :
    (t.step codec (.client line)).keptFirst.map
        KeptRequest.request =
      (t.keptFirst.map KeptRequest.request).or
        (lifecycle codec (.client line)) := by
  have hTracks :
      Tracks codec t line (t.onClientLine codec line) :=
    tracks_onClientLine
  rw [step]
  revert hTracks
  generalize t.onClientLine codec line = result
  intro hTracks
  cases hTracks with
  | request id method hRequest =>
      have hCached :
          (t.cacheInitialize method line).keptFirst =
            t.keptFirst := by
        unfold cacheInitialize
        split <;> rfl
      rw [lifecycle, hRequest, beforeInit, hNot,
        if_neg (by simp)]
      change
        ((t.cacheInitialize method line).keepFirst id method
          line).keptFirst.map KeptRequest.request = _
      dsimp only
      rw [keepFirst, hCached]
      cases hKept : t.keptFirst with
      | some kept =>
          rw [if_neg (by simp), hCached, hKept]
          rfl
      | none =>
          by_cases hCounts : countsForLifecycle method = true
          · rw [if_pos (by simp [hCounts]), if_pos hCounts]
            rfl
          · rw [if_neg (by simp [hCounts]), if_neg hCounts,
              hCached, hKept]
            rfl
  | notified hInitialized =>
      rw [lifecycle,
        Codec.request_of_isInitialized hInitialized,
        Option.or_none]
      rfl
  | other kind hKind hRequest hInitialized =>
      rw [lifecycle, hRequest, Option.or_none]

/-
  A line of the daemon leaves the kept request of a session
  that stays uninitialised, or it is an error for it.
-/
theorem keptFirst_daemon
    {line : Line}
    (hAfter : (t.step codec (.daemon line)).initialised = false)
    (hUnmistaken : ∀ id, ¬ Mistaken codec t line id) :
    (t.step codec (.daemon line)).keptFirst = t.keptFirst ∨
      (t.step codec (.daemon line)).keptFirst = none ∧
        ∃ kept, t.keptFirst = some kept ∧
          t.isInFlight codec kept.id = true ∧
          responseOutcome codec line kept.id = some .error := by
  rw [step] at hAfter ⊢
  cases hResponse : codec.response line with
  | none =>
      left
      rw [onDaemonLine_of_none]
      intro got result error h
      rw [hResponse] at h
      cases h
  | some answer =>
      rcases answer with ⟨got, result, error⟩
      cases hFind :
          t.inFlight.find?
            (fun p => key codec p = codec.idKey got) with
      | none =>
          left
          rw [onDaemonLine_of_none]
          intro got' result' error' h
          rw [hResponse] at h
          cases h
          exact hFind
      | some p =>
          rw [onDaemonLine_of_find? hResponse hFind] at hAfter ⊢
          unfold onAnswer at hAfter ⊢
          split
          · exact Or.inl rfl
          · rename_i hInit
            rw [if_neg hInit] at hAfter
            split
            · rename_i hSuccess
              rw [if_pos hSuccess] at hAfter
              cases hAfter
            · rename_i hSuccess
              split
              · rename_i hDrops
                rw [Bool.and_eq_true] at hDrops
                rcases (Option.any_eq_true _ _).mp hDrops.2 with
                  ⟨kept, hKept, hSame⟩
                refine Or.inr ⟨rfl, kept, hKept, ?_⟩
                rw [hDrops.1] at hResponse
                have hKey :
                    codec.idKey got = codec.idKey kept.id := by
                  by_contra hOther
                  exact hUnmistaken kept.id
                    ⟨kept, got, result, p, hKept, rfl,
                      hResponse, hOther, hSame, hFind,
                      eq_false_of_ne_true hSuccess⟩
                have hInFlight := isInFlight_of_find? hFind
                constructor
                · unfold isInFlight at hInFlight ⊢
                  rw [← hKey]
                  exact hInFlight
                · unfold responseOutcome
                  rw [hResponse]
                  simp [hKey]
              · exact Or.inl rfl

/- An error for the kept request in flight drops it. -/
theorem keptFirst_of_error
    {line : Line} {kept : KeptRequest Line Value}
    (hNot : t.initialised = false)
    (hKept : t.keptFirst = some kept)
    (hInFlight : t.isInFlight codec kept.id = true)
    (hError :
      responseOutcome codec line kept.id = some .error) :
    (t.step codec (.daemon line)).keptFirst = none := by
  rw [step]
  unfold responseOutcome at hError
  split at hError
  · rename_i got result error hResponse
    split at hError
    · cases hError
    · rename_i hKey
      have hKey := not_not.mp hKey
      obtain ⟨p, hFind⟩ :
          ∃ p, t.inFlight.find?
            (fun p => key codec p = codec.idKey got) =
              some p := by
        rw [← Option.isSome_iff_exists, hKey, List.find?_isSome]
        exact List.any_eq_true.mp hInFlight
      rw [keptFirst_of_response hNot hResponse hFind hKept]
      split at hError
      · exact Or.inr
          ⟨‹_›, codec.sameId_of_idKey _ _ hKey.symm⟩
      · split at hError <;> cases hError
  · cases hError

------------------------------------------------------------
-- Runs
------------------------------------------------------------

theorem initialised_append
    (rest : List (TrackerEvent Line Value))
    (hInitialised : (after codec before).initialised = true) :
    (after codec (before ++ rest)).initialised = true ∧
      (after codec (before ++ rest)).cachedInitialize =
        (after codec before).cachedInitialize := by
  induction rest using List.reverseRecOn with
  | nil =>
      rw [List.append_nil]
      exact ⟨hInitialised, rfl⟩
  | append_singleton rest e ih =>
      rw [← List.append_assoc, after_snoc,
        cachedInitialize_step ih.1]
      exact ⟨initialised_step ih.1, ih.2⟩

/- The kept request carries the latest generation. -/
structure Generations
    (t : Tracker Line Value) : Prop where
  kept : ∀ kept, t.keptFirst = some kept →
    t.initialised = false ∧ kept.generation = t.keptGeneration

theorem Generations.step
    (hGen : Generations t) :
    Generations (t.step codec e) := by
  refine ⟨fun kept hKept => ?_⟩
  rcases keptFirst_step codec t e with
    ⟨hSame, ⟨hInit, hFirst⟩ | hNone⟩ |
      ⟨_, hAfter, hNext, kept', hKept', hNumber⟩
  · rw [hFirst] at hKept
    rw [hInit, hSame]
    exact hGen.kept kept hKept
  · rw [hNone] at hKept
    cases hKept
  · rw [hKept'] at hKept
    cases hKept
    exact ⟨hAfter, hNumber.trans hNext.symm⟩

theorem generations_after
    (es : List (TrackerEvent Line Value)) :
    Generations (after codec es) := by
  induction es using List.reverseRecOn with
  | nil => exact ⟨fun kept hKept => by cases hKept⟩
  | append_singleton es e ih =>
      rw [after_snoc]
      exact ih.step

theorem keptGeneration_append
    (codec : Codec Line Value)
    (before rest : List (TrackerEvent Line Value)) :
    (after codec before).keptGeneration ≤
      (after codec (before ++ rest)).keptGeneration := by
  induction rest using List.reverseRecOn with
  | nil => simp
  | append_singleton rest e ih =>
      rw [← List.append_assoc, after_snoc]
      rcases keptFirst_step codec (after codec (before ++ rest))
        e with ⟨hSame, _⟩ | ⟨_, _, hNext, _⟩
      · omega
      · omega

/- A request that is newly kept has a new generation. -/
theorem Keeps.generation
    {kept : KeptRequest Line Value}
    (hKeeps : Keeps codec before e kept) :
    (after codec before).keptGeneration < kept.generation := by
  rcases hKeeps with ⟨hNew, hKept⟩
  rw [after_snoc] at hKept
  rcases keptFirst_step codec (after codec before) e with
    ⟨_, ⟨_, hFirst⟩ | hNone⟩ |
      ⟨_, _, _, kept', hKept', hNumber⟩
  · rw [hFirst] at hKept
    exact absurd hKept hNew
  · rw [hNone] at hKept
    cases hKept
  · rw [hKept'] at hKept
    rw [← Option.some.inj hKept]
    omega

/- An event that neither keeps nor drops a request. -/
theorem FirstSince.snoc
    (hFirst : FirstSince codec es)
    (hNoBoundary : boundary codec (es ++ [e]) = false)
    (hKept :
      (after codec (es ++ [e])).keptFirst.map
          KeptRequest.request =
        ((after codec es).keptFirst.map
          KeptRequest.request).or (lifecycle codec e)) :
    FirstSince codec (es ++ [e]) := by
  rcases hFirst with ⟨n, hLength, hBoundary, hLast, hHead⟩
  refine ⟨n, ?_, ?_, ?_, ?_⟩
  · rw [List.length_append]
    omega
  · rw [List.take_append_of_le_length hLength]
    exact hBoundary
  · intro m hAfter hLe
    rcases Nat.lt_or_ge es.length m with hNew | hOld
    · rw [List.take_of_length_le
        (by rw [List.length_append]; exact hNew)]
      exact hNoBoundary
    · rw [List.take_append_of_le_length hOld]
      exact hLast m hAfter hOld
  · rw [hKept, hHead, List.drop_append_of_le_length hLength,
      List.filterMap_append, List.head?_append]
    cases hLast : lifecycle codec e <;> simp [hLast]

theorem firstSince_after
    (hGuard : History.Holds (Unmistaken codec) es)
    (hNot : (after codec es).initialised = false) :
    FirstSince codec es := by
  induction es using List.reverseRecOn with
  | nil =>
      refine ⟨0, Nat.le_refl 0, rfl, ?_, rfl⟩
      intro m hAfter hLe
      exact absurd hLe (Nat.not_le.mpr hAfter)
  | append_singleton es e ih =>
      have hBefore : (after codec es).initialised = false := by
        refine eq_false_of_ne_true (fun h => ?_)
        rw [(initialised_append [e] h).1] at hNot
        cases hNot
      have hFirst : FirstSince codec es := by
        apply ih _ hBefore
        intro before e' rest hSplit
        apply hGuard before e' (rest ++ [e])
        rw [hSplit]
        simp
      cases e with
      | client line =>
          refine hFirst.snoc (by simp [boundary]) ?_
          rw [after_snoc]
          exact keptFirst_client line hBefore
      | daemon line =>
          have hUnmistaken :=
            hGuard es (.daemon line) [] rfl line rfl hBefore
          have hAfter := hNot
          rw [after_snoc] at hAfter
          rcases keptFirst_daemon hAfter hUnmistaken with
            hSame | ⟨hNone, kept, hKept, hInFlight, hError⟩
          · refine hFirst.snoc ?_ ?_
            · -- an error for the kept request would drop it
              rw [boundary, List.getLast?_concat,
                List.dropLast_concat]
              dsimp only
              split
              · rename_i kept hKept
                rw [Bool.and_eq_false_iff,
                  decide_eq_false_iff_not, or_iff_not_imp_left]
                intro hInFlight hError
                rw [keptFirst_of_error hBefore hKept
                  (eq_true_of_ne_false hInFlight) hError,
                    hKept] at hSame
                cases hSame
              · rfl
            · rw [after_snoc, hSame]
              exact Option.or_none.symm
          · -- the line is the boundary, and nothing is after it
            refine ⟨(es ++ [TrackerEvent.daemon line]).length,
              Nat.le_refl _, ?_, ?_, ?_⟩
            · rw [List.take_length, boundary,
                List.getLast?_concat, List.dropLast_concat]
              simp [hKept, hInFlight, hError]
            · intro m hLater hLe
              exact absurd hLe (Nat.not_le.mpr hLater)
            · rw [after_snoc, hNone, List.drop_length]
              rfl
      | takeInFlight =>
          refine hFirst.snoc (by simp [boundary]) ?_
          rw [after_snoc]
          exact Option.or_none.symm
      | takeInFlightExcept keep =>
          refine hFirst.snoc (by simp [boundary]) ?_
          rw [after_snoc]
          exact Option.or_none.symm
      | setLink link =>
          refine hFirst.snoc (by simp [boundary]) ?_
          rw [after_snoc]
          exact Option.or_none.symm
      | markReplayStarted =>
          refine hFirst.snoc (by simp [boundary]) ?_
          rw [after_snoc]
          exact Option.or_none.symm

/-
  The relations hold after every run in which no error takes
  the kept request for another one with an equal id.
-/
theorem tracker_invariant
    {es : List (TrackerEvent Line Value)}
    (hGuard : History.Holds (Unmistaken codec) es) :
    Invariant codec es := by
  constructor
  case initialised =>
    rintro before rest rfl hInitialised
    exact (initialised_append rest hInitialised).1
  case kept =>
    intro hKept
    rcases Option.ne_none_iff_exists'.mp hKept with
      ⟨kept, hSome⟩
    exact ((generations_after es).kept kept hSome).1
  case cached =>
    rintro before rest rfl hInitialised
    exact (initialised_append rest hInitialised).2
  case generation =>
    rintro before e kept earlier e' rest kept' _ hKeeps rfl
      hEarlier
    have hOld :=
      ((generations_after (earlier ++ [e'])).kept kept'
        hEarlier.2).2
    have hMono :=
      keptGeneration_append codec (earlier ++ [e']) rest
    have hNew := hKeeps.generation
    rw [List.append_assoc, List.singleton_append] at hMono
    omega
  case first => exact firstSince_after hGuard

/- Ids that print differently wherever they differ. -/
theorem unmistaken_of_keys
    (hKeys :
      ∀ a b, codec.sameId a b = true →
        codec.idKey a = codec.idKey b)
    (before : List (TrackerEvent Line Value))
    (e : TrackerEvent Line Value) :
    Unmistaken codec before e := by
  rintro line _ _ id
    ⟨kept, got, _, _, _, hKept, _, hOther, hSame, _⟩
  exact hOther ((hKeys kept.id got hSame).symm.trans hKept)

/- The first request fails, and the second one is kept. -/
theorem tracker_invariant_second_try :
    FirstSince .members
      [.client ⟨0, .call "0" "initialize"⟩,
        .daemon ⟨some "0", none, false, true⟩,
        .client ⟨1, .call "1" "initialize"⟩] := by
  refine (tracker_invariant ?_).first (by decide)
  intro before e rest _
  apply unmistaken_of_keys
  intro a b hSame
  rw [of_decide_eq_true hSame]

------------------------------------------------------------
-- Two Zeros
------------------------------------------------------------

/- Numbers as ids: both zeros are equal. -/
private inductive NumberId
| zero
| negativeZero
| one
deriving DecidableEq

private def NumberId.toString : NumberId → String
| .zero => "0.0"
| .negativeZero => "-0.0"
| .one => "1"

/- A line is what is read of it. -/
private def numbers : Codec (Envelope NumberId) NumberId where
  parse := some
  idKey := NumberId.toString
  sameId a b := a = b ∨ a ≠ .one ∧ b ≠ .one
  sameId_of_idKey := by
    intro a b
    cases a <;> cases b <;> decide

private def clientCalls
    (number : Nat)
    (id : NumberId)
    (method : String) :
    TrackerEvent (Envelope NumberId) NumberId :=
  .client ⟨number, ⟨some id, some method, false, false⟩⟩

private def daemonFails
    (id : NumberId) :
    TrackerEvent (Envelope NumberId) NumberId :=
  .daemon ⟨some id, none, false, true⟩

/-
  An error for the request `-0.0` drops the kept request
  `0.0`, which is still in flight.
-/
theorem tracker_invariant_fails :
    ¬ Invariant numbers
      [clientCalls 0 .zero "initialize",
        clientCalls 1 .negativeZero "tools/list",
        daemonFails .negativeZero,
        clientCalls 2 .one "tools/list"] := by
  intro hInvariant
  rcases hInvariant.first (by decide) with
    ⟨n, hLength, hBoundary, _, hFirst⟩
  have hSplits :
      ∀ n ≤ 4,
        boundary numbers
            (([clientCalls 0 .zero "initialize",
              clientCalls 1 .negativeZero "tools/list",
              daemonFails .negativeZero,
              clientCalls 2 .one "tools/list"]).take n) = true →
          n = 0 := by
    decide
  rw [hSplits n hLength hBoundary] at hFirst
  revert hFirst
  decide

end Tracker

end Proxy

end Ferrex
