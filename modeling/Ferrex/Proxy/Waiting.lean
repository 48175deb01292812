import Ferrex.Lib.History
import Ferrex.Proxy.Accepted

/-
  The requests that a client waits for, read off the history
  of a proxy: they are the ones that its tracker has in
  flight, and an error only ever ends a wait.

  Main declarations:
    * `Waiting`, `Session.Ledger`
    * `waiting_iff`, `errors_awaited`
    * `settled_of_disconnected`
-/

------------------------------------------------------------
-- The Abstract Ledger
------------------------------------------------------------

namespace Ferrex

namespace Proxy

variable {Line Value : Type}

/- The line is a response for the id with this key. -/
def Codec.responds
    (codec : Codec Line Value)
    (k : String)
    (line : Line) : Bool :=
  (codec.response line).any (fun r => codec.idKey r.1 = k)

namespace Effect

/- A request with this key is taken from stdin. -/
def asks
    (codec : Codec Line Value)
    (k : String) : Effect Line Value → Bool
| .received line _ _ =>
    (requestId codec line.line).any (fun id => codec.idKey id = k)
| _ => false

/-
  A response for this key is on its way to stdout and has been
  shown to the tracker, or an error takes its place.
-/
def settles
    (codec : Codec Line Value)
    (k : String) : Effect Line Value → Bool
| .shown _ line => codec.responds k line
| .forwarded _ line => codec.responds k line
| .error id _ => codec.idKey id = k
| _ => false

/- Neither asks nor settles anything. -/
def neutral : Effect Line Value → Bool
| .received _ _ _ => false
| .shown _ _ => false
| .forwarded _ _ => false
| .error _ _ => false
| _ => true

end Effect

/-
  A request with this key has been received, and nothing has
  settled it since.
-/
def Waiting
    (codec : Codec Line Value)
    (k : String) : List (Effect Line Value) → Prop :=
  History.Open (Effect.asks codec k) (Effect.settles codec k)

/- Every error of the history ends a wait. -/
def ErrorsAwaited
    (codec : Codec Line Value) :
    List (Effect Line Value) → Prop :=
  History.Holds (fun before e =>
    ∀ id message, e = .error id message →
      Waiting codec (codec.idKey id) before)

section Effects

variable {codec : Codec Line Value} {k : String}
variable {log es : List (Effect Line Value)}
variable {e : Effect Line Value}

/- A neutral effect is no request. -/
theorem Effect.asks_of_neutral
    (hNeutral : e.neutral = true) :
    e.asks codec k = false := by
  cases e <;> first | rfl | cases hNeutral

/- A neutral effect settles nothing. -/
theorem Effect.settles_of_neutral
    (hNeutral : e.neutral = true) :
    e.settles codec k = false := by
  cases e <;> first | rfl | cases hNeutral

/- Neutral effects change nothing for the client. -/
theorem waiting_neutral
    (hNeutral : ∀ e ∈ es, e.neutral = true) :
    Waiting codec k (log ++ es) ↔ Waiting codec k log := by
  unfold Waiting
  rw [History.Open.append_iff
    (fun e he => Effect.asks_of_neutral (hNeutral e he))]
  apply and_iff_left
  exact fun e he => Effect.settles_of_neutral (hNeutral e he)

/- Errors end the waits for their ids. -/
theorem waiting_errors
    {ids : List Value} {message : String} :
    Waiting codec k
        (log ++ ids.map (fun id => .error id message)) ↔
      Waiting codec k log ∧ k ∉ ids.map codec.idKey := by
  unfold Waiting
  rw [History.Open.append_iff (by simp [Effect.asks])]
  simp [Effect.settles]

end Effects

------------------------------------------------------------
-- Requests in Flight
------------------------------------------------------------

/- What has a method and an id is tracked as a request. -/
theorem Tracker.kind_of_request
    {codec : Codec Line Value}
    {t : Tracker Line Value}
    {line : Numbered Line}
    (hRequest : codec.request line.line ≠ none) :
    (t.onClientLine codec line).2 = .request := by
  have hTracks :
      Tracks codec t line (t.onClientLine codec line) :=
    tracks_onClientLine
  revert hTracks
  generalize t.onClientLine codec line = result
  intro hTracks
  cases hTracks with
  | request id method _ => rfl
  | notified hInitialized =>
      exact absurd (Codec.request_of_isInitialized hInitialized)
        hRequest
  | other kind _ hNone _ => exact absurd hNone hRequest

namespace Session

variable {setup : Setup} {codec : Codec Line Value}
variable {s t u : Session Line Value} {e : Event Line}

/-
  The tracker refines the history: the requests in flight, one
  for each key, are those that the client waits for.
-/
structure Ledger
    (codec : Codec Line Value)
    (s : Session Line Value) : Prop where
  waiting :
    ∀ k,
      Table.HasKey (Tracker.key codec) k s.tracker.inFlight ↔
        Waiting codec k s.log
  unique :
    Table.KeyUnique (Tracker.key codec) s.tracker.inFlight
  errors : ErrorsAwaited codec s.log

namespace Ledger

/- A step that neither asks nor settles. -/
theorem extend
    {es : List (Effect Line Value)}
    (hLedger : s.Ledger codec)
    (hLog : t.log = s.log ++ es)
    (hNeutral : ∀ e ∈ es, e.neutral = true)
    (hInFlight : t.tracker.inFlight = s.tracker.inFlight) :
    t.Ledger codec where
  waiting k := by
    rw [hInFlight, hLog, waiting_neutral hNeutral]
    exact hLedger.waiting k
  unique := by
    rw [hInFlight]
    exact hLedger.unique
  errors := by
    rw [hLog]
    apply hLedger.errors.append
    rintro e he before id message rfl
    exact absurd (hNeutral _ he) (by simp [Effect.neutral])

/-
  A request enters the tracker's table as it enters the
  history.
-/
theorem receive
    (line : Line)
    (hLedger : s.Ledger codec) :
    (s.receive codec line).Ledger codec := by
  rcases Tracker.onClientLine_eq codec s.tracker
    ⟨s.received, line⟩ with
    ⟨inFlight, _, _, _, _, hEq, _, _, _, hFlight⟩
  have hInFlight :
      (s.receive codec line).tracker.inFlight = inFlight :=
    congrArg Tracker.inFlight hEq
  constructor
  case waiting =>
    intro k
    unfold Waiting
    rw [hInFlight]
    unfold Session.receive
    dsimp only
    rw [History.Open.snoc_iff]
    rcases hFlight with ⟨hNone, rfl⟩ | ⟨id, method, hSome, rfl⟩
    · rw [hLedger.waiting k]
      simp [Effect.asks, Effect.settles, requestId, hNone,
        Waiting]
    · have hOld := hLedger.waiting k
      unfold Waiting at hOld
      simp only [Effect.asks, Effect.settles, requestId, hSome,
        Option.map_some, Option.any_some, decide_eq_true_eq,
        and_true, ← hOld]
      constructor
      · rintro ⟨p, hp, rfl⟩
        rcases Table.mem_upsert_iff.mp hp with rfl | ⟨hp, _⟩
        · exact Or.inl rfl
        · exact Or.inr ⟨p, hp, rfl⟩
      · rintro (hKey | ⟨p, hp, hKey⟩)
        · exact ⟨⟨id, method⟩, by simp, hKey⟩
        · by_cases hSame : k = codec.idKey id
          · exact ⟨⟨id, method⟩, by simp, hSame.symm⟩
          · refine ⟨p, Table.mem_upsert_iff.mpr
              (Or.inr ⟨hp, ?_⟩), hKey⟩
            rw [hKey]
            exact hSame
  case unique =>
    rw [hInFlight]
    rcases hFlight with ⟨_, rfl⟩ | ⟨_, _, _, rfl⟩
    · exact hLedger.unique
    · exact hLedger.unique.upsert
  case errors =>
    unfold Session.receive
    exact hLedger.errors.snoc (fun _ _ h => by cases h)

/- A line is shown to the tracker, and to the client after it. -/
theorem shows
    {shown : Effect Line Value}
    (line : Line)
    (hLedger : s.Ledger codec)
    (hShown :
      shown = .shown s.conn line ∨ shown = .forwarded s.conn line)
    (hLog : t.log = s.log ++ [shown])
    (hTracker :
      t.tracker.inFlight =
        (s.tracker.onDaemonLine codec line).inFlight) :
    t.Ledger codec := by
  have hAsks : ∀ k, shown.asks codec k = false := by
    intro k
    rcases hShown with rfl | rfl <;> rfl
  have hSettles :
      ∀ k, shown.settles codec k = codec.responds k line := by
    intro k
    rcases hShown with rfl | rfl <;> rfl
  have hWaiting :
      ∀ k, Waiting codec k t.log ↔
        Waiting codec k s.log ∧
          codec.responds k line = false := by
    intro k
    unfold Waiting
    rw [hLog, History.Open.snoc_iff, hAsks, hSettles]
    simp
  constructor
  case waiting =>
    intro k
    rw [hWaiting, ← hLedger.waiting k, hTracker]
    rcases s.tracker.onDaemonLine_cases codec line with
      ⟨hEq, hOther⟩ | ⟨id, result, error, p, hResponse, _, _, hEq⟩
    · rw [hEq]
      refine (and_iff_left_of_imp ?_).symm
      rintro ⟨p, hp, rfl⟩
      unfold Codec.responds
      cases hResponse : codec.response line with
      | none => rfl
      | some r =>
          exact decide_eq_false (fun hSame =>
            hOther r.1 r.2.1 r.2.2 hResponse p hp hSame.symm)
    · rw [hEq, Tracker.inFlight_onAnswer]
      unfold Codec.responds
      rw [hResponse]
      simp only [Option.any_some, decide_eq_false_iff_not]
      constructor
      · rintro ⟨q, hq, rfl⟩
        rcases Table.mem_delete_iff.mp hq with ⟨hq, hOther⟩
        exact ⟨⟨q, hq, rfl⟩, fun h => hOther h.symm⟩
      · rintro ⟨⟨q, hq, rfl⟩, hOther⟩
        exact ⟨q, Table.mem_delete_iff.mpr
          ⟨hq, fun h => hOther h.symm⟩, rfl⟩
  case unique =>
    rw [hTracker]
    rcases s.tracker.onDaemonLine_cases codec line with
      ⟨hEq, _⟩ | ⟨id, result, error, p, _, _, _, hEq⟩
    · rw [hEq]
      exact hLedger.unique
    · rw [hEq, Tracker.inFlight_onAnswer]
      exact hLedger.unique.delete
  case errors =>
    rw [hLog]
    apply hLedger.errors.snoc
    rintro id message rfl
    rcases hShown with h | h <;> cases h

/-
  A sweep answers the requests in flight but those that it
  keeps, each of them once.
-/
theorem sweep
    (message : String)
    (keep : Pending Value → Bool)
    (hLedger : s.Ledger codec)
    (hLog :
      t.log = s.log ++
        ((s.tracker.inFlight.filter (fun p => !keep p)).map
          Pending.id).map (fun id => .error id message))
    (hKept : t.tracker.inFlight = s.tracker.inFlight.filter keep) :
    t.Ledger codec := by
  have hKeys :
      ((s.tracker.inFlight.filter (fun p => !keep p)).map
          Pending.id).map codec.idKey =
        (s.tracker.inFlight.filter (fun p => !keep p)).map
          (Tracker.key codec) := by
    rw [List.map_map]
    rfl
  constructor
  case waiting =>
    intro k
    rw [hLog, waiting_errors, ← hLedger.waiting k, hKept, hKeys]
    constructor
    · rintro ⟨p, hp, rfl⟩
      rcases List.mem_filter.mp hp with ⟨hp, hKeep⟩
      refine ⟨⟨p, hp, rfl⟩, ?_⟩
      intro hSwept
      rcases List.mem_map.mp hSwept with ⟨q, hq, hKey⟩
      rcases List.mem_filter.mp hq with ⟨hq, hDrop⟩
      rw [hLedger.unique.eq_of_key_eq hq hp hKey, hKeep] at hDrop
      cases hDrop
    · rintro ⟨⟨p, hp, rfl⟩, hSpared⟩
      refine ⟨p, List.mem_filter.mpr ⟨hp, ?_⟩, rfl⟩
      by_contra hDrop
      apply hSpared
      exact List.mem_map_of_mem
        (List.mem_filter.mpr ⟨hp, by simp [hDrop]⟩)
  case unique =>
    rw [hKept]
    exact List.Nodup.sublist (List.filter_sublist.map _)
      hLedger.unique
  case errors =>
    rw [hLog]
    apply hLedger.errors.extend
    rintro before e after hSplit id _ rfl
    rcases List.map_eq_append_iff.mp hSplit with
      ⟨first, rest, hIds, rfl, hRest⟩
    rcases List.map_eq_cons_iff.mp hRest with
      ⟨id', rest', rfl, hId, _⟩
    obtain ⟨rfl, _⟩ := Effect.error.inj hId
    have hDistinct :
        ((first ++ id' :: rest').map codec.idKey).Nodup := by
      rw [← hIds, hKeys]
      exact List.Nodup.sublist (List.filter_sublist.map _)
        hLedger.unique
    refine waiting_errors.mpr ⟨?_, ?_⟩
    · rw [← hLedger.waiting]
      have hMem :
          id' ∈ (s.tracker.inFlight.filter
            (fun p => !keep p)).map Pending.id := by
        rw [hIds]
        simp
      rcases List.mem_map.mp hMem with ⟨p, hp, rfl⟩
      exact ⟨p, (List.mem_filter.mp hp).1, rfl⟩
    · rw [List.map_append, List.map_cons] at hDistinct
      intro hBefore
      exact (List.nodup_append.mp hDistinct).2.2 _ hBefore _
        List.mem_cons_self rfl

/- A sweep that keeps nothing. -/
theorem sweepAll
    (message : String)
    (hLedger : s.Ledger codec)
    (hLog :
      t.log = s.log ++
        (s.tracker.inFlight.map Pending.id).map
          (fun id => .error id message))
    (hNone : t.tracker.inFlight = []) :
    t.Ledger codec := by
  apply hLedger.sweep message (fun _ => false)
  · simpa using hLog
  · simpa using hNone

------------------------------------------------------------
-- Steps
------------------------------------------------------------

/- A step that leaves the history and the table alone. -/
theorem same
    (hLedger : s.Ledger codec)
    (hLog : t.log = s.log)
    (hInFlight : t.tracker.inFlight = s.tracker.inFlight) :
    t.Ledger codec :=
  hLedger.extend (hLog.trans (List.append_nil _).symm) (by simp)
    hInFlight

/- A line that the pump shows leaves both alike. -/
theorem pumpMove
    (hLedger : s.Ledger codec)
    (hMove : PumpMove codec s e t) :
    t.Ledger codec := by
  cases hMove with
  | «show» line _ =>
      exact hLedger.shows line (Or.inl rfl) rfl rfl
  | read line _ | send line _ =>
      exact hLedger.extend rfl (by simp [Effect.neutral]) rfl
  | _ => exact hLedger.same rfl rfl

section Round

variable {after : Option AfterHello}
variable {attempts : Nat}
variable {stage : Stage Line Value}
variable {key : String}
variable {response : Option Line}

/- A handshake is not the client's. -/
theorem hear
    {line : Line}
    (hLedger : s.Ledger codec) :
    (s.hear line).Ledger codec :=
  hLedger.extend rfl (by simp [Effect.neutral]) rfl

/-
  A broken attempt may have sent requests, but none that are
  new.
-/
theorem broken
    (hLedger : s.Ledger codec)
    (hBroken : Broken s after stage u) :
    u.Ledger codec := by
  cases hBroken with
  | answered line _ => exact hLedger.hear
  | _ => exact hLedger.same rfl rfl

/- A failed one answers what it gives up. -/
theorem failed
    (hLedger : u.Ledger codec)
    (hFailed : Failed u after attempts t) :
    t.Ledger codec := by
  cases hFailed with
  | retry _ _ => exact hLedger.same rfl rfl
  | gaveUp _ =>
      exact hLedger.extend rfl (by simp [Effect.neutral]) rfl
  | pending message _ _ => exact hLedger.sweepAll message rfl rfl

/- An adopted attempt settles at most the kept request. -/
theorem adopted
    (hLedger : s.Ledger codec)
    (hAdopted : Adopted codec s after stage key response u) :
    u.Ledger codec := by
  cases hAdopted with
  | answered | forwarded => exact hLedger.hear
  | _ => exact hLedger.same rfl rfl

/- Adoption itself settles nothing more. -/
theorem adopt
    (hLedger : u.Ledger codec) :
    (u.adopt codec after attempts key response).Ledger
      codec := by
  rcases u.adopt_eq codec after attempts key response with
    ⟨es, tracker, _, hEq, -, hTracker, _⟩
  rw [hEq]
  rcases hTracker with
    ⟨hSame, -, hNotices⟩ | ⟨line, -, -, hShown, notices, hEs, hAll⟩
  · refine hLedger.extend rfl ?_ (by rw [hSame]; rfl)
    intro e he
    rw [hNotices e he]
    rfl
  · -- The notice comes ahead of the response.
    have hNotified :
        ({ u with log := u.log ++ notices }).Ledger codec := by
      refine hLedger.extend rfl ?_ rfl
      intro e he
      rw [hAll e he]
      rfl
    refine hNotified.shows line (Or.inr rfl) ?_ ?_
    · rw [hEs]
      simp
    · change tracker.inFlight = _
      rw [hShown]

end Round

/- What was held is shown, and settled as any other line. -/
theorem takeHeld
    (hLedger : s.Ledger codec) :
    (s.takeHeld codec).Ledger codec := by
  unfold Session.takeHeld
  cases hHeld : s.held with
  | none => exact hLedger
  | some line =>
      have hShown :
          (({ s with held := none }.onDaemonLine codec
            line).record (.shown s.conn line)).Ledger codec :=
        hLedger.shows line (Or.inl rfl) rfl rfl
      exact hShown.extend rfl (by simp [Effect.neutral]) rfl

/- A loss keeps at most the kept request in flight. -/
theorem lost
    (hLedger : u.Ledger codec)
    (hLost : Lost codec u t) :
    t.Ledger codec := by
  have hDown : u.linkDown.Ledger codec := hLedger.same rfl rfl
  have hExcept :
      ∀ kept : KeptRequest Line Value,
        (u.linkDown.answer
          (u.linkDown.tracker.takeInFlightExcept codec kept.id)
          restartMessage).Ledger codec := by
    intro kept
    apply hDown.sweep restartMessage (fun p =>
      decide (Tracker.key codec p = codec.idKey kept.id))
    · simp [Session.answer, Tracker.takeInFlightExcept]
    · rfl
  cases hLost with
  | wait _ => exact hDown.sweepAll _ rfl rfl
  | exit kept _ _ =>
      exact (hExcept kept).extend rfl (by simp [Effect.neutral])
        rfl
  | now kept _ hUsed =>
      rw [reconnectNow_eq _ _ hUsed]
      exact (hExcept kept).same rfl rfl

/- The main loop, case by case. -/
theorem mainMove
    (hLedger : s.Ledger codec)
    (hMove : MainMove codec s e t) :
    t.Ledger codec := by
  cases hMove with
  | hop e phase _ | waiter _ => exact hLedger.same rfl rfl
  | close e _ | begin _ _ _ _ | resend key exe _ _ _ _ _ _ _ _
  | replay key exe _ _ _ _ _ _ _ | flushLine line queue _ _ =>
      exact hLedger.extend rfl (by simp [Effect.neutral]) rfl
  | wait line _ _ _ _ _ =>
      unfold waitLine
      split
      · exact hLedger.receive line
      · exact (hLedger.receive line).same rfl rfl
  | skip line exe _ _ _ _ _ _ _ _ => exact hLedger.hear
  | replayInitialized line exe _ _ _ _ _ _ _ _ =>
      exact hLedger.hear.extend rfl (by simp [Effect.neutral]) rfl
  | fail e _ _ _ _ u t _ _ hBroken hFailed =>
      exact (hLedger.broken hBroken).failed hFailed
  | adopt e _ _ _ _ _ _ u _ hAdopted =>
      exact (hLedger.adopted hAdopted).adopt
  | forwardLine line _ =>
      exact (hLedger.receive line).extend rfl
        (by simp [Effect.neutral]) rfl
  | loss t _ _ hLost => exact hLedger.takeHeld.lost hLost
  | awaitLine line _ =>
      unfold awaitLine
      split
      · exact (hLedger.receive line).same rfl rfl
      · exact hLedger.receive line

/- Nothing is in flight at the start. -/
theorem start :
    (Session.start : Session Line Value).Ledger codec where
  waiting k := by
    constructor
    · rintro ⟨p, hp, -⟩
      cases hp
    · exact fun h => absurd h History.Open.nil
  unique := List.nodup_nil
  errors := History.Holds.nil

/- The ledger is right in every state of a session. -/
theorem of_reachable
    (hReach : (machine setup codec).Reachable s) :
    s.Ledger codec :=
  invariant_of_reachable start
    (fun _ _ _ hLedger hMove => hLedger.pumpMove hMove)
    (fun _ _ _ hLedger hMove => hLedger.mainMove hMove) hReach

end Ledger

end Session

------------------------------------------------------------
-- Answers on Their Way
------------------------------------------------------------

namespace Effect

/- The pump shows a response for this key to the tracker. -/
def shows
    (codec : Codec Line Value)
    (k : String) : Effect Line Value → Bool
| .shown _ line => codec.responds k line
| _ => false

/- A response for this key, or an error, is queued for stdout. -/
def answers
    (codec : Codec Line Value)
    (k : String) : Effect Line Value → Bool
| .queued _ line => codec.responds k line
| .forwarded _ line => codec.responds k line
| .error id _ => codec.idKey id = k
| _ => false

/- Only the pump shows lines. -/
theorem shows_of_quiet
    {codec : Codec Line Value} {k : String}
    {e : Effect Line Value}
    (hQuiet : e.ofPump = false) :
    e.shows codec k = false := by
  cases e <;> first | rfl | cases hQuiet

/- What settles a request answers it, or is about to. -/
theorem answers_of_settles
    {codec : Codec Line Value} {k : String}
    {e : Effect Line Value}
    (hSettles : e.settles codec k = true) :
    e.answers codec k = true ∨ e.shows codec k = true := by
  cases e <;> first
    | exact Or.inl hSettles
    | exact Or.inr hSettles

end Effect

namespace Session

variable {setup : Setup} {codec : Codec Line Value}
variable {s t u : Session Line Value} {e : Event Line}

/-
  A response that has been shown is queued, unless the pump is
  about to send it.
-/
def Sends
    (codec : Codec Line Value)
    (s : Session Line Value) : Prop :=
  ∀ k, History.Open (Effect.shows codec k)
      (Effect.answers codec k) s.log →
    ∃ line, s.pump = .send line ∧ codec.responds k line = true

namespace Sends

/-
  With no line in the pump's hand, all that was shown is
  queued.
-/
theorem not_open
    (hSends : s.Sends codec)
    (hPump : ∀ line, s.pump ≠ .send line)
    (k : String) :
    ¬ History.Open (Effect.shows codec k)
      (Effect.answers codec k) s.log := by
  intro hOpen
  rcases hSends k hOpen with ⟨line, hSend, _⟩
  exact hPump line hSend

/- A step that shows nothing. -/
theorem extend
    {es : List (Effect Line Value)}
    (hSends : s.Sends codec)
    (hLog : t.log = s.log ++ es)
    (hShows : ∀ e ∈ es, ∀ k, e.shows codec k = false)
    (hPump : t.pump = s.pump ∨ ∀ line, s.pump ≠ .send line) :
    t.Sends codec := by
  intro k hOpen
  rw [hLog, History.Open.append_iff
    (fun e he => hShows e he k)] at hOpen
  rcases hPump with hSame | hNot
  · rw [hSame]
    exact hSends k hOpen.1
  · exact absurd hOpen.1 (hSends.not_open hNot k)

/- Steps that leave the pump alone keep this. -/
theorem of_keeps
    (hSends : s.Sends codec)
    (hKeeps : Keeps s t) :
    t.Sends codec := by
  rcases hKeeps.log with ⟨es, hLog, hQuiet⟩
  exact hSends.extend hLog
    (fun e he k => Effect.shows_of_quiet (hQuiet e he))
    (Or.inl hKeeps.pump)

/- Where the pump is not about to send, it can change. -/
theorem pumping
    (hSends : s.Sends codec)
    (hLog : t.log = s.log)
    (hPump : ∀ line, s.pump ≠ .send line) :
    t.Sends codec :=
  hSends.extend (hLog.trans (List.append_nil _).symm) (by simp)
    (Or.inr hPump)

/-
  The pump sends the line that it has shown, and no other.
-/
theorem pumpMove
    (hSends : s.Sends codec)
    (hMove : PumpMove codec s e t) :
    t.Sends codec := by
  cases hMove with
  | turn e pump hTurn =>
      refine hSends.pumping ?_ (fun line hSend => ?_)
      · rfl
      · cases hTurn
        case free hPump =>
          rcases hPump with hPump | hPump <;>
            cases hPump.symm.trans hSend
        case cut hPump | full hPump | taken hPump _ |
          inFlight hPump _ | answered hPump _ | ended hPump =>
            cases hPump.symm.trans hSend
  | read line hPump =>
      exact hSends.extend rfl (by simp [Effect.shows])
        (Or.inr (by simp [hPump]))
  | takeHeld line hPump _ =>
      exact hSends.pumping rfl (by simp [hPump])
  | «show» line hPump =>
      intro k hOpen
      rcases History.Open.snoc_iff.mp hOpen with
        hShows | ⟨hOld, _⟩
      · exact ⟨line, rfl, hShows⟩
      · exact absurd hOld (hSends.not_open (by simp [hPump]) k)
  | send line hPump =>
      intro k hOpen
      exfalso
      rcases History.Open.snoc_iff.mp hOpen with
        hShows | ⟨hOld, hAnswers⟩
      · cases hShows
      · rcases hSends k hOld with ⟨line', hSend, hResponds⟩
        cases hPump.symm.trans hSend
        exact absurd (hResponds.symm.trans hAnswers) (by simp)
  | notify hPump => exact hSends.pumping rfl (by simp [hPump])

/- The line that an aborted pump had in hand is queued too. -/
theorem takeHeld
    (hSends : s.Sends codec)
    (hPump : s.pump.joinable = true)
    (k : String) :
    ¬ History.Open (Effect.shows codec k)
      (Effect.answers codec k) (s.takeHeld codec).log := by
  have hNot := hSends.not_open (fun line hSend => by
    rw [hSend] at hPump
    cases hPump) k
  unfold Session.takeHeld
  cases hHeld : s.held with
  | none => exact hNot
  | some line =>
      intro hOpen
      rcases History.Open.snoc_iff.mp hOpen with
        hShows | ⟨hOld, hAnswers⟩
      · cases hShows
      · rcases History.Open.snoc_iff.mp hOld with
          hShows | ⟨hOld, _⟩
        · exact absurd (hShows.symm.trans hAnswers) (by simp)
        · exact hNot hOld

/-
  The main loop takes over only from a pump that has
  stopped.
-/
theorem mainMove
    (hSends : s.Sends codec)
    (hOrderly : s.Orderly)
    (hMove : MainMove codec s e t) :
    t.Sends codec := by
  cases hMove with
  | hop e phase _ | waiter _ =>
      exact hSends.of_keeps (.of_log rfl rfl rfl rfl)
  | close e _ => exact hSends.of_keeps (.exit 0)
  | wait line _ _ _ _ _ => exact hSends.of_keeps (.waitLine line)
  | skip line exe _ _ _ _ _ _ _ _ =>
      exact hSends.of_keeps (.record rfl)
  | begin _ _ _ _ | resend key exe _ _ _ _ _ _ _ _
  | replay key exe _ _ _ _ _ _ _ | flushLine line queue _ _ =>
      exact hSends.extend rfl (by simp [Effect.shows])
        (Or.inl rfl)
  | replayInitialized line exe _ _ _ _ _ _ _ _ =>
      exact hSends.of_keeps (((Keeps.record rfl).trans
        (.record rfl)).trans (.of_log rfl rfl rfl rfl))
  | fail e after _ _ stage u t hPhase _ hBroken hFailed =>
      have hU : u.Sends codec := by
        cases hBroken with
        | answered line _ => exact hSends.of_keeps (.record rfl)
        | _ => exact hSends
      exact hU.of_keeps (.failed hFailed)
  | adopt e after attempts _ _ key response u hPhase hAdopted =>
      have hStopped : s.pump = .stopped := by
        apply hOrderly.away
        rw [hPhase]
        rfl
      have hU : u.Sends codec ∧ u.pump = s.pump := by
        cases hAdopted with
        | answered | forwarded =>
            exact ⟨hSends.of_keeps (.record rfl), rfl⟩
        | _ => exact ⟨hSends, rfl⟩
      rcases u.adopt_eq codec after attempts key response with
        ⟨es, _, _, hEq, hEs, _⟩
      rw [hEq]
      refine hU.1.extend rfl ?_ (Or.inr ?_)
      · intro e he k
        rcases hEs e he with rfl | ⟨_, _, _, rfl⟩ <;> rfl
      · rw [hU.2, hStopped]
        simp
  | forwardLine line _ => exact hSends.of_keeps (.forwardLine line)
  | loss t _ hPump hLost =>
      have hDown : (s.takeHeld codec).linkDown.Sends codec :=
        fun k hOpen => absurd hOpen (hSends.takeHeld hPump k)
      exact hDown.of_keeps (Orderly.lost hLost)
  | awaitLine line _ => exact hSends.of_keeps (.awaitLine line)

/- What was shown is sent, in every state of a session. -/
theorem of_reachable
    (hReach : (machine setup codec).Reachable s) :
    s.Sends codec :=
  induction_of_reachable
    (fun _ hOpen => absurd hOpen History.Open.nil)
    (fun _ _ _ _ hSends hMove => hSends.pumpMove hMove)
    (fun _ _ _ hReach hSends hMove =>
      hSends.mainMove (.of_reachable hReach) hMove) hReach

end Sends

------------------------------------------------------------
-- Waiting for a Request
------------------------------------------------------------

/- The proxy waits for a request with none in flight. -/
def Idle (s : Session Line Value) : Prop :=
  s.phase = .disconnected → s.tracker.inFlight = []

namespace Idle

/- Only a disconnected proxy waits so. -/
theorem of_phase
    (hPhase : s.phase ≠ .disconnected) :
    s.Idle :=
  fun h => absurd h hPhase

/- The pump does not begin a wait. -/
theorem pumpMove
    (hIdle : s.Idle)
    (hMove : PumpMove codec s e t) :
    t.Idle := by
  cases hMove with
  | «show» line _ =>
      intro hPhase
      apply List.eq_nil_iff_forall_not_mem.mpr
      intro p hp
      have hOld := Tracker.subset_onDaemonLine hp
      rw [hIdle hPhase] at hOld
      cases hOld
  | _ => exact hIdle

/- A loss ends in it once every request is answered. -/
theorem mainMove
    (hIdle : s.Idle)
    (hMove : MainMove codec s e t) :
    t.Idle := by
  cases hMove with
  | hop e phase hHop =>
      cases hHop <;> exact of_phase (fun h => by cases h)
  | wait line _ _ _ _ hPhase =>
      apply of_phase
      unfold waitLine
      split
      · change s.phase ≠ _
        simp [hPhase]
      · change s.phase ≠ _
        simp [hPhase]
  | skip line exe _ _ _ _ _ hPhase _ _ =>
      apply of_phase
      change s.phase ≠ _
      simp [hPhase]
  | fail e _ _ _ _ u t _ _ _ hFailed =>
      cases hFailed with
      | pending message _ _ => exact fun _ => rfl
      | _ => exact of_phase (fun h => by cases h)
  | adopt e after attempts _ _ key response u _ _ =>
      apply of_phase
      rw [Vouched.phase_adopt]
      simp
  | loss t _ _ hLost =>
      cases hLost with
      | wait _ => exact fun _ => rfl
      | exit kept _ _ => exact of_phase (fun h => by cases h)
      | now kept _ hUsed =>
          rw [reconnectNow_eq _ _ hUsed]
          exact of_phase (fun h => by cases h)
  | awaitLine line hPhase =>
      unfold awaitLine
      split
      · exact of_phase (fun h => by cases h)
      · rename_i hKind
        intro _
        rcases Tracker.onClientLine_eq codec s.tracker
          ⟨s.received, line⟩ with
          ⟨inFlight, _, _, _, _, hEq, _, _, _, hFlight⟩
        change (s.tracker.onClientLine codec
          ⟨s.received, line⟩).1.inFlight = []
        rw [hEq]
        rcases hFlight with ⟨_, hSame⟩ | ⟨id, method, hSome, _⟩
        · exact hSame.trans (hIdle hPhase)
        · apply absurd _ hKind
          apply Tracker.kind_of_request
          rw [hSome]
          simp
  | _ => exact of_phase (fun h => by cases h)

/- A wait is idle in every state of a session. -/
theorem of_reachable
    (hReach : (machine setup codec).Reachable s) :
    s.Idle :=
  invariant_of_reachable (of_phase (fun h => by cases h))
    (fun _ _ _ hIdle hMove => hIdle.pumpMove hMove)
    (fun _ _ _ hIdle hMove => hIdle.mainMove hMove) hReach

end Idle

end Session

------------------------------------------------------------
-- Main Results
------------------------------------------------------------

section Main

variable {setup : Setup} {codec : Codec Line Value}
variable {s t : Session Line Value}

/-
  In every reachable state the requests in flight are those
  that have been received and not been settled since.
-/
theorem waiting_iff
    (hReach : (machine setup codec).Reachable s)
    (k : String) :
    (∃ p ∈ s.tracker.inFlight, Tracker.key codec p = k) ↔
      Waiting codec k s.log :=
  (Session.Ledger.of_reachable hReach).waiting k

/-
  The daemon is lost with the second request of the client in
  flight, once the first one has been answered.
-/
def lossInFlight : List (Event (Envelope String)) :=
  [.begin, .connected "k" ⟨true, none⟩, .step,
    .client (.call "1" "initialize"), .written,
    .read (.answer "1"), .credit true, .pump, .pump, .pump,
    .pump, .pump, .client (.call "2" "tools/list"), .written,
    .cut, .pump, .lost]

/-
  At the loss the second request still waits, and the first
  does not.
-/
theorem waiting_iff_at_loss :
    ∃ s : Session (Envelope String) String,
      s.phase = .loss ∧ Waiting .members "\"2\"" s.log ∧
        ¬ Waiting .members "\"1\"" s.log := by
  rcases run_of_any .sample .members lossInFlight
    (fun s => decide (s.phase = .loss) &&
      decide (s.tracker.inFlight.map
        (Tracker.key .members) = ["\"2\""]))
    (by decide +kernel) with ⟨s, hReach, hTest⟩
  simp only [Bool.and_eq_true, decide_eq_true_eq] at hTest
  rcases hTest with ⟨hPhase, hKeys⟩
  have hMem :
      ∀ k, (∃ p ∈ s.tracker.inFlight,
          Tracker.key Codec.members p = k) ↔ k = "\"2\"" := by
    intro k
    rw [← List.mem_map, hKeys, List.mem_singleton]
  refine ⟨s, hPhase, ?_, ?_⟩
  · exact (waiting_iff hReach _).mp ((hMem _).mpr rfl)
  · rw [← waiting_iff hReach, hMem]
    decide

/-
  An error of the proxy is for a request that the client has
  sent, and that neither a response nor an error has settled
  since.
-/
theorem errors_awaited
    {before after : List (Effect Line Value)}
    {id : Value} {message : String}
    (hReach : (machine setup codec).Reachable s)
    (hLog : s.log = before ++ .error id message :: after) :
    Waiting codec (codec.idKey id) before :=
  (Session.Ledger.of_reachable hReach).errors before _ after hLog
    id message rfl

/-
  Its error takes the place of the answer that it waited
  for.
-/
theorem errors_awaited_at_loss :
    ∃ (s : Session (Envelope String) String)
      (before after : List (Effect (Envelope String) String))
      (message : String),
      s.log = before ++ .error "2" message :: after ∧
        Waiting .members "\"2\"" before := by
  rcases run_of_any .sample .members (lossInFlight ++ [.step])
    (fun s => s.log.any (fun
      | .error id _ => decide (id = "2")
      | _ => false))
    (by decide +kernel) with ⟨s, hReach, hTest⟩
  rcases List.any_eq_true.mp hTest with ⟨e, he, hError⟩
  rcases List.append_of_mem he with ⟨before, after, hLog⟩
  cases e with
  | error id message =>
      obtain rfl := of_decide_eq_true hError
      exact ⟨s, before, after, message, hLog,
        errors_awaited hReach hLog⟩
  | _ => cases hError

/-
  While the proxy has lost its daemon and waits for another
  request, each request that it ever received has been
  followed on stdout by a response for it or by an error.
-/
theorem settled_of_disconnected
    {before after : List (Effect Line Value)}
    {line : Numbered Line} {kind : ClientLine} {kept : Bool}
    {id : Value}
    (hReach : (machine setup codec).Reachable s)
    (hPhase : s.phase = .disconnected)
    (hLog : s.log = before ++ .received line kind kept :: after)
    (hId : requestId codec line.line = some id) :
    ∃ e ∈ after, e.answers codec (codec.idKey id) = true := by
  have hNot : ¬ Waiting codec (codec.idKey id) s.log := by
    rw [← (Session.Ledger.of_reachable hReach).waiting,
      Session.Idle.of_reachable hReach hPhase]
    rintro ⟨p, hp, -⟩
    cases hp
  have hAsks :
      (Effect.received line kind kept).asks codec
        (codec.idKey id) = true := by
    simp [Effect.asks, hId]
  rcases History.Open.closed hNot hLog hAsks with
    ⟨e, he, hSettles⟩
  rcases Effect.answers_of_settles hSettles with
    hAnswers | hShows
  · exact ⟨e, he, hAnswers⟩
  · -- It was shown, and the pump has stopped.
    rcases List.append_of_mem he with ⟨mid, rest, rfl⟩
    have hStopped : s.pump = .stopped := by
      apply (Session.Orderly.of_reachable hReach).away
      rw [hPhase]
      rfl
    have hSent :=
      (Session.Sends.of_reachable hReach).not_open
        (by simp [hStopped]) (codec.idKey id)
    have hSplit :
        s.log =
          (before ++ .received line kind kept :: mid) ++
            e :: rest := by
      rw [hLog]
      simp
    rcases History.Open.closed hSent hSplit hShows with
      ⟨f, hf, hAnswers⟩
    exact ⟨f, by simp [hf], hAnswers⟩

/- After the loss the request is settled. -/
theorem settled_of_disconnected_after_loss :
    ∃ (s : Session (Envelope String) String)
      (before after : List (Effect (Envelope String) String))
      (line : Numbered (Envelope String))
      (kind : ClientLine) (kept : Bool) (id : String),
      s.log = before ++ .received line kind kept :: after ∧
        requestId .members line.line = some id ∧
        ∃ e ∈ after,
          e.answers .members
            (Codec.members.idKey id) = true := by
  rcases run_of_any .sample .members (lossInFlight ++ [.step])
    (fun s => decide (s.phase = .disconnected) &&
      s.log.any (Effect.asks .members "\"2\""))
    (by decide +kernel) with ⟨s, hReach, hTest⟩
  rw [Bool.and_eq_true] at hTest
  have hPhase : s.phase = .disconnected :=
    of_decide_eq_true hTest.1
  rcases List.any_eq_true.mp hTest.2 with ⟨e, he, hAsks⟩
  rcases List.append_of_mem he with ⟨before, after, hLog⟩
  cases e with
  | received line kind kept =>
      rcases (Option.any_eq_true _ _).mp hAsks with
        ⟨id, hId, _⟩
      exact ⟨s, before, after, line, kind, kept, id, hLog, hId,
        settled_of_disconnected hReach hPhase hLog hId⟩
  | _ => cases hAsks

end Main

end Proxy

end Ferrex
