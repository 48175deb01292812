import Ferrex.Proxy.Survival

/-
  The handshake that a reconnect replays.  A daemon has
  accepted it, unless the session was initialised by a
  response to another request than the cached `initialize`.

  Main declarations:
    * `Accepted`, `ReplaysAccepted`
    * `Tracker.acceptsOther`, `Session.showing`
    * `Session.Vouched`
    * `replays_accepted`
-/

------------------------------------------------------------
-- Accepted Lines
------------------------------------------------------------

namespace Ferrex

namespace Proxy

variable {Line Value : Type}

/- A line of a daemon that the tracker has been shown. -/
def Effect.reply : Effect Line Value → Option Line
| .shown _ line => some line
| .forwarded _ line => some line
| _ => none

/- No request with this id has been received. -/
def Unrivalled
    (codec : Codec Line Value)
    (id : Value)
    (log : List (Effect Line Value)) : Prop :=
  ∀ l kind kept id' method,
    Effect.received l kind kept ∈ log →
      codec.request l.line = some (id', method) →
        codec.idKey id' ≠ codec.idKey id

/-
  A daemon has answered this `initialize` with a success,
  before there was another request with its id.
-/
def Accepted
    (codec : Codec Line Value)
    (log : List (Effect Line Value))
    (l : Numbered Line) : Prop :=
  ∃ id before kind kept mid e line after,
    codec.request l.line = some (id, initializeMethod) ∧
      log =
        before ++ .received l kind kept :: mid ++ e :: after ∧
      Unrivalled codec id mid ∧
      e.reply = some line ∧
      responseOutcome codec line id = some .success

/- A request that is replayed has been accepted before. -/
def Replays
    (codec : Codec Line Value)
    (before : List (Effect Line Value)) :
    Effect Line Value → Prop
| .written _ .replay l =>
    codec.request l.line ≠ none → Accepted codec before l
| _ => True

/- Every replay of a log is of an accepted request. -/
def ReplaysAccepted
    (codec : Codec Line Value)
    (log : List (Effect Line Value)) : Prop :=
  History.Holds (Replays codec) log

section Logs

variable {codec : Codec Line Value} {id : Value}
variable {log es : List (Effect Line Value)} {l : Numbered Line}

/- Effects that receive nothing bring no rival. -/
theorem Unrivalled.append
    (hLog : Unrivalled codec id log)
    (hEs : ∀ l kind kept, Effect.received l kind kept ∉ es) :
    Unrivalled codec id (log ++ es) := by
  intro l kind kept id' method hMem hRequest
  rcases List.mem_append.mp hMem with hMem | hMem
  · exact hLog l kind kept id' method hMem hRequest
  · exact absurd hMem (hEs l kind kept)

/- A request with another id is no rival. -/
theorem Unrivalled.snoc
    {kind : ClientLine} {kept : Bool}
    (hLog : Unrivalled codec id log)
    (hNew :
      ∀ id' method, codec.request l.line = some (id', method) →
        codec.idKey id' ≠ codec.idKey id) :
    Unrivalled codec id (log ++ [.received l kind kept]) := by
  intro l' kind' kept' id' method hMem hRequest
  rcases List.mem_append.mp hMem with hMem | hMem
  · exact hLog l' kind' kept' id' method hMem hRequest
  · cases List.mem_singleton.mp hMem
    exact hNew id' method hRequest

/- What has been accepted stays so. -/
theorem Accepted.append
    (hAccepted : Accepted codec log l) :
    Accepted codec (log ++ es) l := by
  rcases hAccepted with
    ⟨id, before, kind, kept, mid, e, line, after, hRequest, hLog,
      hRest⟩
  refine ⟨id, before, kind, kept, mid, e, line, after ++ es,
    hRequest, ?_, hRest⟩
  rw [hLog, List.append_assoc, List.cons_append]

/- Replays of accepted requests may be added. -/
theorem ReplaysAccepted.append
    (hReplays : ReplaysAccepted codec log)
    (hEs :
      ∀ c l, Effect.written c .replay l ∈ es →
        codec.request l.line ≠ none → Accepted codec log l) :
    ReplaysAccepted codec (log ++ es) := by
  induction es generalizing log with
  | nil =>
      rw [List.append_nil]
      exact hReplays
  | cons e es ih =>
      have hOne : Replays codec log e := by
        unfold Replays
        split
        · exact hEs _ _ List.mem_cons_self
        · trivial
      rw [← List.singleton_append, ← List.append_assoc]
      apply ih (History.Holds.snoc hReplays hOne)
      intro c l hMem hRequest
      exact (hEs c l (List.mem_cons_of_mem _ hMem)
        hRequest).append

end Logs

------------------------------------------------------------
-- What Initialises a Session
------------------------------------------------------------

namespace Tracker

variable {codec : Codec Line Value} {t : Tracker Line Value}
variable {l : Numbered Line} {line : Line} {id : Value}

/-
  An `initialize` is cached, and the line would initialise
  the session, but is no success of that `initialize`: it
  answers another request, or carries an error as well.
-/
def acceptsOther
    (codec : Codec Line Value)
    (t : Tracker Line Value)
    (line : Line) : Bool :=
  match t.cachedInitialize.bind
      (fun l => requestId codec l.line),
    codec.response line with
  | some id, some (got, result, error) =>
      match t.inFlight.find?
        (fun p => key codec p = codec.idKey got) with
      | some p =>
          !t.initialised && result &&
            countsForLifecycle p.method &&
            !(decide (p.method = initializeMethod) &&
              decide (codec.idKey got = codec.idKey id) &&
              !error)
      | none => false
  | _, _ => false

/- The daemon's lines do not touch the cache. -/
theorem cachedInitialize_onDaemonLine :
    (t.onDaemonLine codec line).cachedInitialize =
      t.cachedInitialize := by
  rcases onDaemonLine_eq codec t line with ⟨_, _, _, hEq, _⟩
  rw [hEq]

/- An uninitialised session caches each `initialize`. -/
theorem cachedInitialize_beforeInit
    (hNot : t.initialised = false) :
    (t.beforeInit id initializeMethod l).cachedInitialize =
      some l := by
  unfold beforeInit keepFirst cacheInitialize
  rw [hNot, if_neg (by decide), if_pos rfl]
  split <;> rfl

/- Until it is initialised, a session caches the last one. -/
theorem cachedInitialize_onClientLine
    (hNot : t.initialised = false)
    (hRequest :
      codec.request l.line = some (id, initializeMethod)) :
    (t.onClientLine codec l).1.cachedInitialize = some l := by
  have hTracks : Tracks codec t l (t.onClientLine codec l) :=
    tracks_onClientLine
  revert hTracks
  generalize t.onClientLine codec l = result
  intro hTracks
  cases hTracks with
  | request id' method hOther =>
      rw [hRequest] at hOther
      cases hOther
      exact cachedInitialize_beforeInit hNot
  | notified hInitialized =>
      rw [Codec.request_of_isInitialized hInitialized]
        at hRequest
      cases hRequest
  | other kind _ hNone _ =>
      rw [hRequest] at hNone
      cases hNone

/- What initialises a session that has sent `initialize`. -/
theorem success_of_initialises
    (hNot : t.initialised = false)
    (hNow : (t.onDaemonLine codec line).initialised = true)
    (hOwn : t.acceptsOther codec line = false)
    (hCached : t.cachedInitialize = some l)
    (hId : requestId codec l.line = some id) :
    responseOutcome codec line id = some .success ∧
      ∃ p ∈ t.inFlight, key codec p = codec.idKey id ∧
        p.method = initializeMethod := by
  unfold onDaemonLine at hNow
  unfold acceptsOther at hOwn
  rw [hCached, Option.bind_some, hId] at hOwn
  cases hResponse : codec.response line with
  | none =>
      simp only [hResponse, hNot, Bool.false_eq_true] at hNow
  | some answer =>
      rcases answer with ⟨got, result, error⟩
      simp only [hResponse] at hNow hOwn
      cases hFind :
          t.inFlight.find?
            (fun p => key codec p = codec.idKey got) with
      | none =>
          simp only [hFind, hNot, Bool.false_eq_true] at hNow
      | some p =>
          simp only [hFind] at hNow hOwn
          have hMem := List.mem_of_find?_eq_some hFind
          have hKey : key codec p = codec.idKey got := by
            have hTest := List.find?_some hFind
            exact of_decide_eq_true hTest
          have hSuccess :
              (result && countsForLifecycle p.method) = true := by
            refine eq_true_of_ne_false (fun hNo => ?_)
            unfold onAnswer removeInFlight at hNow
            rw [hNot, hNo] at hNow
            rw [if_neg (by simp), if_neg (by simp)] at hNow
            split at hNow <;> contradiction
          rw [Bool.and_eq_true] at hSuccess
          simp only [hNot, hSuccess.1, hSuccess.2, Bool.not_false,
            Bool.true_and, Bool.not_eq_false', Bool.and_eq_true,
            decide_eq_true_eq, Bool.not_eq_true'] at hOwn
          refine ⟨?_, p, hMem, hKey.trans hOwn.1.2, hOwn.1.1⟩
          unfold responseOutcome
          simp [hResponse, hOwn.1.2, hOwn.2, hSuccess.1]

end Tracker

------------------------------------------------------------
-- Lines Shown to the Tracker
------------------------------------------------------------

namespace Session

variable {setup : Setup} {codec : Codec Line Value}
variable {s t u : Session Line Value} {e : Event Line}

/-
  The line that a step shows to the tracker: one of the pump,
  one that it had in hand at a loss, or the response that a
  re-sent `initialize` gets.
-/
def showing
    (codec : Codec Line Value)
    (s : Session Line Value) : Event Line → Option Line
| .pump =>
    match s.pump with
    | .show line => some line
    | _ => none
| .step =>
    match s.phase with
    | .loss => if s.pump.joinable then s.held else none
    | _ => none
| .answer line _ =>
    match s.phase with
    | .round _ _ _ (.resendResponse _ id) =>
        (responseOutcome codec line id).map (fun _ => line)
    | _ => none
| _ => none

/-
  The tracker is about to take another's answer for that of
  its `initialize`.
-/
def acceptsOther
    (codec : Codec Line Value)
    (s : Session Line Value)
    (e : Event Line) : Bool :=
  (s.showing codec e).any (s.tracker.acceptsOther codec)

/-
  The cached line is the last `initialize` received.  Where an
  `initialize` with its id is in flight, no other request with
  that id has followed it.
-/
def Latest
    (codec : Codec Line Value)
    (s : Session Line Value)
    (l : Numbered Line) : Prop :=
  ∃ id before kind kept mid,
    codec.request l.line = some (id, initializeMethod) ∧
      s.log = before ++ .received l kind kept :: mid ∧
      ∀ p ∈ s.tracker.inFlight,
        Tracker.key codec p = codec.idKey id →
          p.method = initializeMethod →
            Unrivalled codec id mid

/-
  Until the session begins the cache has the last
  `initialize`, and after that one that was accepted.
-/
structure Vouched
    (codec : Codec Line Value)
    (s : Session Line Value) : Prop where
  waiting :
    s.tracker.initialised = false →
      ∀ l, s.tracker.cachedInitialize = some l →
        s.Latest codec l
  accepted :
    s.tracker.initialised = true →
      ∀ l, s.tracker.cachedInitialize = some l →
        Accepted codec s.log l
  replays : ReplaysAccepted codec s.log

/- Effects that receive nothing leave it the last. -/
theorem Latest.append
    {es : List (Effect Line Value)} {l : Numbered Line}
    (hLatest : s.Latest codec l)
    (hLog : t.log = s.log ++ es)
    (hEs : ∀ l kind kept, Effect.received l kind kept ∉ es)
    (hInFlight :
      ∀ p ∈ t.tracker.inFlight, p ∈ s.tracker.inFlight) :
    t.Latest codec l := by
  rcases hLatest with
    ⟨id, before, kind, kept, mid, hRequest, hOld, hAlone⟩
  refine ⟨id, before, kind, kept, mid ++ es, hRequest, ?_, ?_⟩
  · rw [hLog, hOld, List.append_assoc, List.cons_append]
  · intro p hMem hKey hMethod
    exact (hAlone p (hInFlight p hMem) hKey hMethod).append hEs

/- Another request leaves the `initialize` the last. -/
theorem Latest.receive
    {line : Line} {l : Numbered Line}
    (hLatest : s.Latest codec l)
    (hOther :
      ∀ id, codec.request line ≠ some (id, initializeMethod)) :
    (s.receive codec line).Latest codec l := by
  rcases hLatest with
    ⟨id, before, kind, kept, mid, hRequest, hLog, hAlone⟩
  rcases Tracker.onClientLine_eq codec s.tracker
    ⟨s.received, line⟩ with
    ⟨inFlight, _, _, _, _, hEq, _, _, _, hFlight⟩
  have hInFlight :
      (s.receive codec line).tracker.inFlight = inFlight :=
    congrArg Tracker.inFlight hEq
  refine ⟨id, before, kind, kept,
    mid ++ [.received ⟨s.received, line⟩
      (s.clientLine codec line).2
      ((s.clientLine codec line).1.keeps s.received)],
    hRequest, ?_, ?_⟩
  · unfold Session.receive
    rw [hLog, List.append_assoc, List.cons_append]
  · intro p hMem hKey hMethod
    rw [hInFlight] at hMem
    rcases hFlight with ⟨hNone, hSame⟩ | ⟨id', method, hNew, hSome⟩
    · rw [hSame] at hMem
      apply (hAlone p hMem hKey hMethod).snoc
      intro id' method hNew
      rw [hNone] at hNew
      cases hNew
    · rw [hSome, Table.mem_upsert_iff] at hMem
      rcases hMem with hMem | ⟨hMem, hApart⟩
      · -- It has taken the place of the `initialize`.
        rw [hMem] at hMethod
        subst hMethod
        exact absurd hNew (hOther id')
      · apply (hAlone p hMem hKey hMethod).snoc
        intro id'' method' hNew' hSame
        rw [hNew] at hNew'
        cases hNew'
        exact hApart (hKey.trans hSame.symm)

namespace Vouched

/- What neither receives nor shows a line. -/
theorem extend
    {es : List (Effect Line Value)}
    (hVouched : s.Vouched codec)
    (hLog : t.log = s.log ++ es)
    (hEs : ∀ l kind kept, Effect.received l kind kept ∉ es)
    (hWritten :
      ∀ c l, Effect.written c .replay l ∈ es →
        codec.request l.line ≠ none → Accepted codec s.log l)
    (hInFlight :
      ∀ p ∈ t.tracker.inFlight, p ∈ s.tracker.inFlight)
    (hInitialised :
      t.tracker.initialised = s.tracker.initialised)
    (hCached :
      t.tracker.cachedInitialize =
        s.tracker.cachedInitialize) :
    t.Vouched codec where
  waiting := by
    intro hNot l hSome
    rw [hInitialised] at hNot
    rw [hCached] at hSome
    exact (hVouched.waiting hNot l hSome).append hLog hEs
      hInFlight
  accepted := by
    intro hInit l hSome
    rw [hInitialised] at hInit
    rw [hCached] at hSome
    rw [hLog]
    exact (hVouched.accepted hInit l hSome).append
  replays := by
    rw [hLog]
    exact hVouched.replays.append hWritten

/- What writes nothing either. -/
theorem same
    {es : List (Effect Line Value)}
    (hVouched : s.Vouched codec)
    (hLog : t.log = s.log ++ es)
    (hEs : ∀ l kind kept, Effect.received l kind kept ∉ es)
    (hWritten : ∀ c l, Effect.written c .replay l ∉ es)
    (hInFlight :
      ∀ p ∈ t.tracker.inFlight, p ∈ s.tracker.inFlight)
    (hInitialised :
      t.tracker.initialised = s.tracker.initialised)
    (hCached :
      t.tracker.cachedInitialize =
        s.tracker.cachedInitialize) :
    t.Vouched codec :=
  hVouched.extend hLog hEs
    (fun c l hMem => absurd hMem (hWritten c l)) hInFlight
    hInitialised hCached

/-
  A line that arrives is cached as the last, or not at all.
-/
theorem receive
    {line : Line}
    (hVouched : s.Vouched codec) :
    (s.receive codec line).Vouched codec := by
  have hSame :
      (s.receive codec line).tracker.initialised =
        s.tracker.initialised :=
    Tracker.initialised_onClientLine
  rcases Tracker.onClientLine_eq codec s.tracker
    ⟨s.received, line⟩ with
    ⟨_, cached, _, _, _, hEq, hCached, _⟩
  have hNow :
      (s.receive codec line).tracker.cachedInitialize = cached :=
    congrArg Tracker.cachedInitialize hEq
  constructor
  case waiting =>
    intro hNot l hSome
    rw [hSame] at hNot
    by_cases hNew :
        ∃ id, codec.request line = some (id, initializeMethod)
    · rcases hNew with ⟨id, hRequest⟩
      have hLast :
          (s.receive codec line).tracker.cachedInitialize =
            some ⟨s.received, line⟩ :=
        Tracker.cachedInitialize_onClientLine hNot hRequest
      rw [hLast] at hSome
      cases hSome
      exact ⟨id, s.log, _, _, [], hRequest, rfl,
        fun _ _ _ _ => fun _ _ _ _ _ hMem => by cases hMem⟩
    · have hOther :
          ∀ id, codec.request line ≠ some (id, initializeMethod) :=
        fun id hRequest => hNew ⟨id, hRequest⟩
      rw [hNow] at hSome
      rcases hCached with hOld | ⟨-, hRequest, -⟩
      · rw [hOld] at hSome
        exact (hVouched.waiting hNot l hSome).receive hOther
      · exact absurd hRequest hNew
  case accepted =>
    intro hInit l hSome
    rw [hSame] at hInit
    rw [hNow] at hSome
    rcases hCached with hOld | ⟨hNot, -⟩
    · rw [hOld] at hSome
      exact (hVouched.accepted hInit l hSome).append
    · rw [hInit] at hNot
      cases hNot
  case replays =>
    apply hVouched.replays.append
    intro c l hMem
    simp at hMem

/-
  A step that shows a line to the tracker: if it initialises
  the session, the line is a success of what is cached.
-/
theorem shows
    {reply : Effect Line Value}
    {es : List (Effect Line Value)}
    {line : Line}
    (hVouched : s.Vouched codec)
    (hOwn : s.tracker.acceptsOther codec line = false)
    (hReply : reply.reply = some line)
    (hLog : t.log = s.log ++ es)
    (hMem : reply ∈ es)
    (hEs : ∀ l kind kept, Effect.received l kind kept ∉ es)
    (hWritten : ∀ c l, Effect.written c .replay l ∉ es)
    (hTracker :
      t.tracker = s.tracker.onDaemonLine codec line) :
    t.Vouched codec := by
  have hInFlight :
      ∀ p ∈ t.tracker.inFlight, p ∈ s.tracker.inFlight := by
    intro p hp
    rw [hTracker] at hp
    exact Tracker.subset_onDaemonLine hp
  have hSame :
      t.tracker.cachedInitialize =
        s.tracker.cachedInitialize := by
    rw [hTracker]
    exact Tracker.cachedInitialize_onDaemonLine
  constructor
  case waiting =>
    intro hNot l hSome
    rw [hTracker] at hNot
    rw [hSame] at hSome
    have hBefore : s.tracker.initialised = false := by
      apply eq_false_of_ne_true
      intro hTrue
      rw [Tracker.initialised_onDaemonLine hTrue] at hNot
      cases hNot
    exact (hVouched.waiting hBefore l hSome).append hLog hEs
      hInFlight
  case accepted =>
    intro hNow l hSome
    rw [hTracker] at hNow
    rw [hSame] at hSome
    rw [hLog]
    cases hBefore : s.tracker.initialised with
    | true => exact (hVouched.accepted hBefore l hSome).append
    | false =>
        rcases hVouched.waiting hBefore l hSome with
          ⟨id, before, kind, kept, mid, hRequest, hOld, hAlone⟩
        have hId : requestId codec l.line = some id := by
          unfold requestId
          rw [hRequest]
          rfl
        rcases Tracker.success_of_initialises hBefore hNow hOwn
          hSome hId with ⟨hSuccess, p, hp, hKey, hMethod⟩
        rcases List.append_of_mem hMem with ⟨front, back, hSplit⟩
        refine ⟨id, before, kind, kept, mid ++ front, reply, line,
          back, hRequest, ?_, ?_, hReply, hSuccess⟩
        · rw [hOld, hSplit]
          simp
        · apply (hAlone p hp hKey hMethod).append
          intro l kind kept hReceived
          apply hEs l kind kept
          rw [hSplit]
          exact List.mem_append_left _ hReceived
  case replays =>
    rw [hLog]
    apply hVouched.replays.append
    exact fun c l hMem => absurd hMem (hWritten c l)

/-
  The pump shows a line, and only an own answer begins the
  session.
-/
theorem pumpMove
    (hVouched : s.Vouched codec)
    (hOwn : s.acceptsOther codec e = false)
    (hMove : PumpMove codec s e t) :
    t.Vouched codec := by
  cases hMove with
  | «show» line hPump =>
      have hLine :
          s.tracker.acceptsOther codec line = false := by
        unfold Session.acceptsOther showing at hOwn
        rw [hPump] at hOwn
        exact hOwn
      exact hVouched.shows hLine rfl rfl
        (List.mem_singleton_self (Effect.shown s.conn line))
        (by simp)
        (by simp) rfl
  | read line _ | send line _ =>
      exact hVouched.same rfl (by simp) (by simp)
        (fun _ hp => hp) rfl rfl
  | _ =>
      exact hVouched.same (List.append_nil _).symm (by simp)
        (by simp) (fun _ hp => hp) rfl rfl

section Round

variable {after : Option AfterHello}
variable {attempts : Nat}
variable {early : Bool}
variable {stage : Stage Line Value}

/- What is heard in a handshake is not an answer. -/
theorem hear
    {line : Line}
    (hVouched : s.Vouched codec) :
    (s.hear line).Vouched codec :=
  hVouched.same rfl (by simp) (by simp) (fun _ hp => hp) rfl rfl

/- A new connection changes no cache. -/
theorem newConn
    (hVouched : s.Vouched codec) :
    ({ s with conn := s.conn + 1 }).Vouched codec :=
  hVouched.same (List.append_nil _).symm (by simp) (by simp)
    (fun _ hp => hp) rfl rfl

/- A broken attempt replays what was accepted. -/
theorem broken
    (hVouched : s.Vouched codec)
    (hBroken : Broken s after stage u) :
    u.Vouched codec := by
  cases hBroken with
  | answered line _ => exact hVouched.hear
  | hello _ => exact hVouched.newConn
  | _ =>
      exact hVouched.same (List.append_nil _).symm (by simp)
        (by simp) (fun _ hp => hp) rfl rfl

/- A failed one replays nothing more. -/
theorem failed
    (hVouched : u.Vouched codec)
    (hFailed : Failed u after attempts t) :
    t.Vouched codec := by
  cases hFailed with
  | retry _ _ =>
      exact hVouched.same (List.append_nil _).symm (by simp)
        (by simp) (fun _ hp => hp) rfl rfl
  | gaveUp _ =>
      exact hVouched.same rfl (by simp) (by simp)
        (fun _ hp => hp) rfl rfl
  | pending message _ _ =>
      exact hVouched.same rfl (by simp) (by simp)
        (fun _ hp => by cases hp) rfl rfl

/- A connection that is adopted with no response to show. -/
theorem adopt
    {key : String}
    (hVouched : u.Vouched codec) :
    (u.adopt codec after attempts key none).Vouched codec := by
  rcases u.adopt_eq codec after attempts key none with
    ⟨es, tracker, _, hEq, hEs, hTracker, _⟩
  rcases hTracker with ⟨hSame, -⟩ | ⟨line, hSome, -⟩
  · rw [hEq, hSame]
    refine hVouched.same rfl (fun _ _ _ hMem => ?_)
      (fun _ _ hMem => ?_) (fun _ hp => hp) rfl rfl <;>
        rcases hEs _ hMem with h | ⟨_, h, _⟩ <;> cases h
  · cases hSome

/- The answer to the kept request is its own. -/
theorem adoptWith
    {key : String}
    {line : Line}
    (hVouched : u.Vouched codec)
    (hOwn : u.tracker.acceptsOther codec line = false) :
    (u.adopt codec after attempts key
      (some line)).Vouched codec := by
  rcases u.adopt_eq codec after attempts key (some line) with
    ⟨es, tracker, _, hEq, hEs, hTracker, _⟩
  have hQuiet :
      (∀ l kind kept, Effect.received l kind kept ∉ es) ∧
        ∀ c l, Effect.written c .replay l ∉ es := by
    constructor
    · intro l kind kept hMem
      rcases hEs _ hMem with h | ⟨_, _, _, h⟩ <;> cases h
    · intro c l hMem
      rcases hEs _ hMem with h | ⟨_, _, _, h⟩ <;> cases h
  rw [hEq]
  rcases hTracker with
    ⟨hSame, -⟩ | ⟨line', hSome, -, hShown, notices, hNotices, -⟩
  · rw [hSame]
    exact hVouched.same rfl hQuiet.1 hQuiet.2
      (fun _ hp => hp) rfl rfl
  · cases hSome
    have hMem : Effect.forwarded u.conn line ∈ es := by
      rw [hNotices]
      exact List.mem_append_right _ List.mem_cons_self
    have hVia :
        ({ u with
            log := u.log ++ es
            tracker := tracker }).Vouched codec :=
      hVouched.shows hOwn rfl rfl hMem hQuiet.1 hQuiet.2 hShown
    exact hVia.same (List.append_nil _).symm (by simp) (by simp)
      (fun _ hp => hp) rfl rfl

end Round

/- The held line is shown before a loss. -/
theorem takeHeld
    (hVouched : s.Vouched codec)
    (hOwn :
      ∀ line, s.held = some line →
        s.tracker.acceptsOther codec line = false) :
    (s.takeHeld codec).Vouched codec := by
  rcases s.takeHeld_eq codec with ⟨es, tracker, hEq, hHeld⟩
  rw [hEq]
  rcases hHeld with ⟨_, hNil, hSame⟩ | ⟨line, hLine, hEs, hShown⟩
  · rw [hNil, hSame]
    exact hVouched.same rfl (by simp) (by simp)
      (fun _ hp => hp) rfl rfl
  · rw [hEs]
    exact hVouched.shows (hOwn line hLine) rfl rfl
      (List.mem_cons_self (a := Effect.shown s.conn line))
      (by simp)
      (by simp) hShown

/- The loss itself accepts nothing. -/
theorem lost
    (hVouched : u.Vouched codec)
    (hLost : Lost codec u t) :
    t.Vouched codec := by
  cases hLost with
  | wait _ =>
      exact hVouched.same rfl (by simp) (by simp)
        (fun _ hp => by cases hp) rfl rfl
  | exit kept _ _ =>
      exact hVouched.same (List.append_assoc _ _ _) (by simp)
        (by simp) (fun _ hp => List.mem_of_mem_filter hp) rfl rfl
  | now kept _ hUsed =>
      rw [reconnectNow_eq _ _ hUsed]
      exact hVouched.same rfl (by simp) (by simp)
        (fun _ hp => List.mem_of_mem_filter hp) rfl rfl

/- After an adoption the queue is flushed. -/
theorem phase_adopt
    {after : Option AfterHello}
    {attempts : Nat}
    {key : String}
    {response : Option Line} :
    (u.adopt codec after attempts key response).phase =
      .flush := by
  rcases u.adopt_eq codec after attempts key response with
    ⟨_, _, _, hEq, _⟩
  rw [hEq]

/- The response of a re-sent `initialize` ends its round. -/
theorem adopt_of_resendResponse
    {after : Option AfterHello}
    {attempts : Nat}
    {early : Bool}
    {key : String}
    {id : Value}
    (hPhase :
      s.phase =
        .round after attempts early (.resendResponse key id))
    (hNext : s.next setup codec e = some t)
    (hFlush : t.phase = .flush) :
    ∃ line exe outcome, e = .answer line exe ∧
      responseOutcome codec line id = some outcome ∧
      t = (s.hear line).adopt codec after attempts key
        (some line) := by
  have hPump :
      ∀ e, s.pumpNext codec e ≠ some t := by
    intro e hNext
    have hSame : t.phase = s.phase := by
      cases pumpMove_of_next hNext <;> rfl
    rw [hSame, hPhase] at hFlush
    cases hFlush
  have hMain :
      s.roundNext setup codec after attempts early
          (.resendResponse key id) e = some t := by
    unfold next at hNext
    split at hNext
    case h_5 =>
      unfold mainNext at hNext
      rw [hPhase] at hNext
      exact hNext
    all_goals exact absurd hNext (hPump _)
  cases e with
  | client line =>
      cases hMain
      unfold waitLine at hFlush
      split at hFlush <;> cases hPhase.symm.trans hFlush
  | answer line exe =>
      unfold roundNext at hMain
      dsimp only at hMain
      split at hMain
      · cases hMain
        cases hPhase.symm.trans hFlush
      · rename_i outcome hOutcome
        exact ⟨line, exe, outcome, rfl, hOutcome,
          (Option.some.inj hMain).symm⟩
  | failed f exe =>
      simp only [roundNext, Option.map_eq_some_iff] at hMain
      rcases hMain with ⟨error, -, hEq⟩
      have hFailed :
          Failed s after attempts
            (s.attemptFailed setup after attempts early exe
              error) :=
        failed_attemptFailed _ _ _ _ _ _
      rw [hEq] at hFailed
      cases hFailed <;> cases hFlush
  | eof | stdoutFailed =>
      cases hMain
      cases hFlush
  | _ => cases hMain

/-
  The main loop, case by case, where no other answer is
  taken.
-/
theorem mainMove
    (hVouched : s.Vouched codec)
    (hCached : s.Cached codec)
    (hRepeats : s.Repeats codec)
    (hOwn : s.acceptsOther codec e = false)
    (hNext : s.next setup codec e = some t)
    (hMove : MainMove codec s e t) :
    t.Vouched codec := by
  cases hMove with
  | hop e phase _ | waiter _ =>
      exact hVouched.same (List.append_nil _).symm (by simp)
        (by simp) (fun _ hp => hp) rfl rfl
  | close e _ | begin _ _ _ _ | resend key exe _ _ _ _ _ _ _ _
  | flushLine line queue _ _ =>
      exact hVouched.same rfl (by simp) (by simp)
        (fun _ hp => hp) rfl rfl
  | wait line _ _ _ _ _ =>
      have hReceive : (s.receive codec line).Vouched codec :=
        hVouched.receive
      unfold waitLine
      split
      · exact hReceive
      · exact hReceive.same (List.append_nil _).symm (by simp)
          (by simp) (fun _ hp => hp) rfl rfl
  | replay key exe attempts early line id hPhase hLine _ =>
      have hInit := (hRepeats.replay _ _ _ hPhase).1
      refine hVouched.extend rfl (by simp) ?_ (fun _ hp => hp)
        rfl rfl
      intro c l hMem _
      cases List.mem_singleton.mp hMem
      exact hVouched.accepted hInit line hLine
  | skip line exe _ _ _ _ _ _ _ _ => exact hVouched.hear
  | replayInitialized line exe _ _ _ _ _ initialized hPhase _ =>
      have hLine : codec.isInitialized initialized.line = true :=
        hCached.stage initialized (by rw [hPhase]; rfl)
      refine hVouched.hear.extend rfl (by simp) ?_
        (fun _ hp => hp) rfl rfl
      intro c l hMem hRequest
      cases List.mem_singleton.mp hMem
      exact absurd (Codec.request_of_isInitialized hLine)
        hRequest
  | fail e _ _ _ _ u t _ _ hBroken hFailed =>
      exact (hVouched.broken hBroken).failed hFailed
  | adopt e after attempts early stage key response u hPhase
      hAdopted =>
      cases hAdopted with
      | hello _ _ => exact hVouched.newConn.adopt
      | replayed | resent => exact hVouched.adopt
      | answered id line _ => exact hVouched.hear.adopt
      | forwarded id _ _ _ =>
          rcases adopt_of_resendResponse hPhase hNext phase_adopt
            with ⟨line, exe, outcome, hEvent, hOutcome, hEq⟩
          subst hEvent
          unfold Session.acceptsOther showing at hOwn
          simp only [hPhase, hOutcome, Option.map_some,
            Option.any_some] at hOwn
          rw [hEq]
          exact hVouched.hear.adoptWith hOwn
  | forwardLine line _ =>
      have hReceive : (s.receive codec line).Vouched codec :=
        hVouched.receive
      exact hReceive.same rfl (by simp) (by simp)
        (fun _ hp => hp) rfl rfl
  | loss t hPhase hPump hLost =>
      have hHeld :
          ∀ line, s.held = some line →
            s.tracker.acceptsOther codec line = false := by
        intro line hHeld
        unfold Session.acceptsOther showing at hOwn
        rw [hPhase] at hOwn
        simp only [hPump, if_true, hHeld] at hOwn
        exact hOwn
      exact (hVouched.takeHeld hHeld).lost hLost
  | awaitLine line hPhase =>
      have hReceive : (s.receive codec line).Vouched codec :=
        hVouched.receive
      unfold awaitLine
      split
      · exact hReceive.same (List.append_nil _).symm (by simp)
          (by simp) (fun _ hp => hp) rfl rfl
      · exact hReceive

end Vouched

end Session

------------------------------------------------------------
-- Replays
------------------------------------------------------------

/-
  The runs in which no response to another request than the
  cached `initialize` initialises the session.
-/
def ownAccepted
    (setup : Setup)
    (codec : Codec Line Value) :
    Machine (Session Line Value) (Event Line) :=
  (machine setup codec).restrict
    (fun s e => s.acceptsOther codec e = false)

/-
  The run lemma, for runs whose steps all meet the
  condition.
-/
theorem Session.Vouched.of_ownAccepted
    {setup : Setup} {codec : Codec Line Value}
    {s : Session Line Value}
    (hReach : (ownAccepted setup codec).Reachable s) :
    s.Vouched codec := by
  rcases hReach with ⟨s₀, es, hStart, hRun⟩
  have hStart : s₀ = .start := hStart
  subst hStart
  induction hRun with
  | nil =>
      constructor
      case replays => exact History.Holds.nil
      all_goals simp [start, Tracker.default]
  | @snoc s t es e hFirst hStep ih =>
      have hSource : (machine setup codec).Reachable s :=
        ⟨_, _, rfl, hFirst.of_restrict⟩
      rcases Session.next_eq_some hStep.1 with hMove | hMove
      · exact ih.pumpMove hStep.2 hMove
      · exact ih.mainMove (.of_reachable hSource)
          (.of_reachable hSource) hStep.2 hStep.1 hMove

/- In such a run only accepted requests are replayed. -/
theorem replays_accepted
    {setup : Setup} {codec : Codec Line Value}
    {s : Session Line Value}
    (hReach : (ownAccepted setup codec).Reachable s) :
    ReplaysAccepted codec s.log :=
  (Session.Vouched.of_ownAccepted hReach).replays

------------------------------------------------------------
-- A Rejected Handshake
------------------------------------------------------------

/- A request was replayed, and no success has answered it. -/
private def replaysRejected
    (codec : Codec Line Value)
    (log : List (Effect Line Value)) : Bool :=
  log.any fun
    | .written _ .replay l =>
        (requestId codec l.line).any (fun id =>
          !log.any (fun e =>
            e.reply.any (fun line =>
              responseOutcome codec line id = some .success)))
    | _ => false

/- One replay of a rejected request refutes the property. -/
private theorem not_replaysAccepted
    {codec : Codec Line Value}
    {log : List (Effect Line Value)}
    (hRejected : replaysRejected codec log = true) :
    ¬ ReplaysAccepted codec log := by
  intro hReplays
  rcases List.any_eq_true.mp hRejected with ⟨e, hMem, hTest⟩
  split at hTest
  · rename_i l
    rcases (Option.any_eq_true _ _).mp hTest with
      ⟨id, hId, hNone⟩
    rcases List.append_of_mem hMem with ⟨before, after, hLog⟩
    have hRequest : codec.request l.line ≠ none := by
      intro h
      unfold requestId at hId
      rw [h] at hId
      cases hId
    rcases hReplays before _ after hLog hRequest with
      ⟨id', front, kind, kept, mid, reply, line, back, hInit,
        hBefore, -, hReply, hSuccess⟩
    unfold requestId at hId
    rw [hInit] at hId
    cases hId
    have hIn : reply ∈ log := by
      rw [hLog, hBefore]
      simp
    have hAny :
        log.any (fun e =>
          e.reply.any (fun line =>
            responseOutcome codec line id' = some .success)) =
          true := by
      apply List.any_eq_true.mpr
      refine ⟨reply, hIn, ?_⟩
      rw [hReply]
      exact decide_eq_true hSuccess
    rw [hAny] at hNone
    cases hNone
  · cases hTest

/- The daemon is lost, and a request starts a reconnect. -/
private def reconnecting : List (Event (Envelope String)) :=
  [.cut, .pump, .lost, .step, .client (.call "9" "tools/call"),
    .begin, .connected "k" ⟨true, none⟩]

/- The client sends a request, and the daemon answers it. -/
private def exchange
    (id method : String)
    (answer : Envelope String) :
    List (Event (Envelope String)) :=
  [.client (.call id method), .written, .read answer,
    .credit true, .pump, .pump, .pump, .pump, .pump]

/-
  The daemon answers `initialize` with an error, and a request
  that follows initialises the session.
-/
theorem replays_rejected :
    ¬ ∀ s : Session (Envelope String) String,
      (machine .sample .members).Reachable s →
        ReplaysAccepted .members s.log := by
  intro hAll
  rcases run_of_any .sample .members
    ([.begin, .connected "k" ⟨true, none⟩, .step] ++
      exchange "0" "initialize" ⟨some "0", none, false, true⟩ ++
      exchange "1" "tools/call" (.answer "1") ++ reconnecting)
    (fun s => replaysRejected .members s.log)
    (by decide +kernel) with ⟨s, hReach, hTest⟩
  exact not_replaysAccepted hTest (hAll s hReach)

/- The daemon has accepted the `initialize` that is replayed. -/
theorem replays_accepted_once :
    ∃ s : Session (Envelope String) String,
      (s.log.any fun
        | .written _ .replay l =>
            (requestId Codec.members l.line).isSome
        | _ => false) = true ∧
        ReplaysAccepted .members s.log := by
  let events : List (Event (Envelope String)) :=
    [.begin, .connected "k" ⟨true, none⟩, .step] ++
      exchange "0" "initialize" (.answer "0") ++ reconnecting
  let test : Session (Envelope String) String → Bool := fun s =>
    s.log.any fun
      | .written _ .replay l =>
          (requestId Codec.members l.line).isSome
      | _ => false
  have hComputed :
      (events.foldlM
        (Machine.checked (Session.next .sample .members)
          (fun s e => !s.acceptsOther .members e)) .start).any
            test = true := by
    decide +kernel
  rcases Machine.Run.restrict_of_any (fun s => s = .start) _ _ _
    (fun s e h => (Bool.not_eq_true' _).mp h)
    hComputed with ⟨s, hRun, hTest⟩
  exact ⟨s, hTest, replays_accepted ⟨_, _, rfl, hRun⟩⟩

end Proxy

end Ferrex
