import Ferrex.Lib.Table

/-
  The JSON-RPC traffic that a proxy follows to reconnect a
  client in the middle of a session.

  Main declarations:
    * `Envelope`, `Codec`, `responseOutcome`
    * `Tracker`, `Tracker.onClientLine`
    * `Tracker.onDaemonLine`, `Tracker.keptInFlight`
-/

------------------------------------------------------------
-- Lines
------------------------------------------------------------

namespace Ferrex

namespace Proxy

/-
  The two methods of the handshake that the proxy knows by
  name.
-/
def initializeMethod : String := "initialize"

/- The notification which ends it. -/
def initializedMethod : String := "notifications/initialized"

/- What the tracker makes of a line of the client. -/
inductive ClientLine where
| request
| notification
| cacheOnly
| untracked
deriving DecidableEq

/-
  What the tracker believes about the connection to the
  daemon.
-/
inductive Link where
| up
| down
| reconnecting
deriving DecidableEq

/- How a lifecycle request was answered. -/
inductive Outcome where
| success
| error
deriving DecidableEq

/- The members of a line that are read. -/
structure Envelope (Value : Type) where
  id : Option Value
  method : Option String
  result : Bool
  error : Bool
deriving DecidableEq

/-
  The JSON library: what it parses, the text that it prints
  for an id, and its equality, which holds of ids that print
  the same.
-/
structure Codec (Line Value : Type) where
  parse : Line → Option (Envelope Value)
  idKey : Value → String
  sameId : Value → Value → Bool
  sameId_of_idKey :
    ∀ a b, idKey a = idKey b → sameId a b = true

/- A line of the client, with its place among all of them. -/
structure Numbered (Line : Type) where
  number : Nat
  line : Line
deriving DecidableEq

variable {Line Value : Type}

namespace Codec

/- The id and the method of a request. -/
def request
    (codec : Codec Line Value)
    (line : Line) : Option (Value × String) :=
  match codec.parse line with
  | some ⟨some id, some method, _, _⟩ => some (id, method)
  | _ => none

/- The id of a line with an id and no method. -/
def response
    (codec : Codec Line Value)
    (line : Line) : Option (Value × Bool × Bool) :=
  match codec.parse line with
  | some ⟨some id, none, result, error⟩ =>
      some (id, result, error)
  | _ => none

/- The line is `notifications/initialized`. -/
def isInitialized
    (codec : Codec Line Value)
    (line : Line) : Bool :=
  match codec.parse line with
  | some ⟨none, some method, _, _⟩ => method = initializedMethod
  | _ => false

/- The notification is not a request. -/
theorem request_of_isInitialized
    {codec : Codec Line Value} {line : Line}
    (hInitialized : codec.isInitialized line = true) :
    codec.request line = none := by
  unfold isInitialized at hInitialized
  unfold request
  split at hInitialized
  · rename_i hParse
    rw [hParse]
  · cases hInitialized

end Codec

/- The id of a request, if the line is one. -/
def requestId
    (codec : Codec Line Value)
    (line : Line) : Option Value :=
  (codec.request line).map Prod.fst

/- How a line answers a request. -/
def responseOutcome
    (codec : Codec Line Value)
    (line : Line)
    (id : Value) : Option Outcome :=
  match codec.response line with
  | some (got, result, error) =>
      if codec.idKey got ≠ codec.idKey id then
        none
      else if error then
        some .error
      else if result then
        some .success
      else
        none
  | none => none

/-
  The requests after whose success a session counts as
  initialised.
-/
def countsForLifecycle (method : String) : Bool :=
  method ≠ "ping" && method ≠ "server/discover"

------------------------------------------------------------
-- The Tracker
------------------------------------------------------------

/-
  The first request of an uninitialised session, which is
  sent again.
-/
structure KeptRequest (Line Value : Type) where
  id : Value
  line : Numbered Line
  isInitialize : Bool
  generation : Nat

/- A request that has not been answered. -/
structure Pending (Value : Type) where
  id : Value
  method : String

/-
  Everything that the proxy remembers of the client's lines.
-/
structure Tracker (Line Value : Type) where
  inFlight : List (Pending Value)
  initialised : Bool
  cachedInitialize : Option (Numbered Line)
  cachedInitialized : Option (Numbered Line)
  keptFirst : Option (KeptRequest Line Value)
  keptGeneration : Nat
  link : Link
  replayStarted : Bool

namespace Tracker

/- A tracker before the first line. -/
def default : Tracker Line Value where
  inFlight := []
  initialised := false
  cachedInitialize := none
  cachedInitialized := none
  keptFirst := none
  keptGeneration := 0
  link := .up
  replayStarted := false

/-
  A replay sends the handshake only if it is there to send.
-/
def replaysHandshake (t : Tracker Line Value) : Bool :=
  t.initialised && t.cachedInitialize.isSome

/- Any change of the link ends a replay. -/
def setLink
    (t : Tracker Line Value)
    (link : Link) : Tracker Line Value :=
  { t with link := link, replayStarted := false }

/-
  From here on a late notification is queued, not cached.
-/
def markReplayStarted
    (t : Tracker Line Value) : Tracker Line Value :=
  { t with replayStarted := true }

/- The line with this number is the kept first request. -/
def keeps (t : Tracker Line Value) (number : Nat) : Bool :=
  t.keptFirst.any (fun kept => kept.line.number = number)

/- Some request still waits for its answer. -/
def hasInFlight (t : Tracker Line Value) : Bool :=
  !t.inFlight.isEmpty

/- All ids that wait, taken away together. -/
def takeInFlight
    (t : Tracker Line Value) :
    Tracker Line Value × List Value :=
  ({ t with inFlight := [] }, t.inFlight.map Pending.id)

section Codec

variable (codec : Codec Line Value)

/- The text by which an id is compared. -/
def key (p : Pending Value) : String := codec.idKey p.id

/- The id waits, under whatever method. -/
def isInFlight
    (t : Tracker Line Value)
    (id : Value) : Bool :=
  t.inFlight.any (fun p => key codec p = codec.idKey id)

/- All ids but the one whose request will be sent again. -/
def takeInFlightExcept
    (t : Tracker Line Value)
    (keep : Value) : Tracker Line Value × List Value :=
  ({ t with
      inFlight := t.inFlight.filter
        (fun p => key codec p = codec.idKey keep) },
    (t.inFlight.filter
      (fun p => key codec p ≠ codec.idKey keep)).map
        Pending.id)

/- The kept request, while its own id still waits. -/
def keptInFlight
    (t : Tracker Line Value) :
    Option (KeptRequest Line Value) :=
  t.keptFirst.filter (fun kept => t.isInFlight codec kept.id)

end Codec

/- What a session that is not initialised caches of a request. -/
def cacheInitialize
    (t : Tracker Line Value)
    (method : String)
    (line : Numbered Line) : Tracker Line Value :=
  if method = initializeMethod then
    { t with cachedInitialize := some line }
  else
    t

/-
  The first request that could start the session is kept,
  with a generation of its own.
-/
def keepFirst
    (t : Tracker Line Value)
    (id : Value)
    (method : String)
    (line : Numbered Line) : Tracker Line Value :=
  if t.keptFirst.isNone && countsForLifecycle method then
    { t with
      keptGeneration := t.keptGeneration + 1
      keptFirst :=
        some ⟨id, line, method = initializeMethod,
          t.keptGeneration + 1⟩ }
  else
    t

/-
  Once the session has begun, nothing of a request is kept.
-/
def beforeInit
    (t : Tracker Line Value)
    (id : Value)
    (method : String)
    (line : Numbered Line) : Tracker Line Value :=
  if t.initialised then
    t
  else
    (t.cacheInitialize method line).keepFirst id method line

/- A request takes the place of an older one with its id. -/
def insertInFlight
    (codec : Codec Line Value)
    (t : Tracker Line Value)
    (id : Value)
    (method : String) : Tracker Line Value :=
  { t with
    inFlight := Table.upsert (key codec) ⟨id, method⟩
      t.inFlight }

/-
  The notification is cached, and it is forwarded only when
  no replay will send it.
-/
def onInitialized
    (t : Tracker Line Value)
    (line : Numbered Line) : Tracker Line Value × ClientLine :=
  ({ t with cachedInitialized := some line },
    if t.link = .reconnecting ∧ t.replaysHandshake = true ∧
        t.replayStarted = false then
      .cacheOnly
    else
      .notification)

/- Every line of the client passes through here, once. -/
def onClientLine
    (codec : Codec Line Value)
    (t : Tracker Line Value)
    (line : Numbered Line) : Tracker Line Value × ClientLine :=
  match codec.parse line.line with
  | some ⟨some id, some method, _, _⟩ =>
      ((t.beforeInit id method line).insertInFlight codec id
        method, .request)
  | some ⟨none, some method, _, _⟩ =>
      if method = initializedMethod then
        t.onInitialized line
      else
        (t, .notification)
  | _ => (t, .untracked)

/- The first request of the session has been answered. -/
def onAnswer
    (codec : Codec Line Value)
    (t : Tracker Line Value)
    (id : Value)
    (method : String)
    (result error : Bool) : Tracker Line Value :=
  if t.initialised then
    t
  else if result && countsForLifecycle method then
    { t with initialised := true, keptFirst := none }
  else if error &&
      t.keptFirst.any (fun k => codec.sameId k.id id) then
    { t with keptFirst := none }
  else
    t

/- A response takes its id away. -/
def removeInFlight
    (codec : Codec Line Value)
    (t : Tracker Line Value)
    (id : Value) : Tracker Line Value :=
  { t with
    inFlight := Table.delete
      (fun p => key codec p = codec.idKey id) t.inFlight }

/-
  Every line of the daemon passes through here, and a
  response may initialise the session.
-/
def onDaemonLine
    (codec : Codec Line Value)
    (t : Tracker Line Value)
    (line : Line) : Tracker Line Value :=
  match codec.response line with
  | some (id, result, error) =>
      match t.inFlight.find?
        (fun p => key codec p = codec.idKey id) with
      | some p =>
          (t.removeInFlight codec id).onAnswer codec id p.method
            result error
      | none => t
  | none => t

------------------------------------------------------------
-- What a Line Changes
------------------------------------------------------------

section Lines

variable {codec : Codec Line Value}
variable {t : Tracker Line Value}
variable {line : Numbered Line}

/- What a line of the client does. -/
inductive Tracks
    (codec : Codec Line Value)
    (t : Tracker Line Value)
    (line : Numbered Line) :
    Tracker Line Value × ClientLine → Prop
| request (id : Value) (method : String)
    (hRequest : codec.request line.line = some (id, method)) :
    Tracks codec t line
      ((t.beforeInit id method line).insertInFlight codec id
        method, .request)
| notified
    (hInitialized : codec.isInitialized line.line = true) :
    Tracks codec t line (t.onInitialized line)
| other (kind : ClientLine)
    (hKind : kind = .notification ∨ kind = .untracked)
    (hRequest : codec.request line.line = none)
    (hInitialized : codec.isInitialized line.line = false) :
    Tracks codec t line (t, kind)

/-
  The tracker does to a line's table one of the things that
  `Tracks` lists.
-/
theorem tracks_onClientLine :
    Tracks codec t line (t.onClientLine codec line) := by
  unfold onClientLine
  split
  · rename_i hParse
    exact .request _ _ (by unfold Codec.request; rw [hParse])
  · rename_i method _ _ hParse
    split
    · rename_i hMethod
      refine .notified ?_
      unfold Codec.isInitialized
      rw [hParse]
      exact decide_eq_true hMethod
    · rename_i hMethod
      refine .other _ (Or.inl rfl) ?_ ?_
      · unfold Codec.request
        rw [hParse]
      · unfold Codec.isInitialized
        rw [hParse]
        exact decide_eq_false hMethod
  · rename_i hNoId hNoMethod
    refine .other _ (Or.inr rfl) ?_ ?_
    · unfold Codec.request
      split
      · rename_i hParse
        exact absurd hParse (hNoId _ _ _ _)
      · rfl
    · unfold Codec.isInitialized
      split
      · rename_i hParse
        exact absurd hParse (hNoMethod _ _ _)
      · rfl

/-
  A request may be cached as the `initialize`, and it may be
  kept as the first one.
-/
theorem beforeInit_eq
    (t : Tracker Line Value)
    (id : Value)
    (method : String)
    (line : Numbered Line) :
    ∃ cached kept generation,
      t.beforeInit id method line =
          { t with
            cachedInitialize := cached
            keptFirst := kept
            keptGeneration := generation } ∧
        (cached = t.cachedInitialize ∨
          (t.initialised = false ∧ method = initializeMethod ∧
            cached = some line)) ∧
        ((kept = t.keptFirst ∧ generation = t.keptGeneration) ∨
          (t.initialised = false ∧ t.keptFirst = none ∧
            countsForLifecycle method = true ∧
            generation = t.keptGeneration + 1 ∧
            kept =
              some ⟨id, line, method = initializeMethod,
                t.keptGeneration + 1⟩)) := by
  unfold beforeInit
  split
  · exact ⟨_, _, _, rfl, Or.inl rfl, Or.inl ⟨rfl, rfl⟩⟩
  · rename_i hInitialised
    have hFalse : t.initialised = false :=
      eq_false_of_ne_true hInitialised
    have hCached :
        ∃ cached,
          t.cacheInitialize method line =
              { t with cachedInitialize := cached } ∧
            (cached = t.cachedInitialize ∨
              (t.initialised = false ∧
                method = initializeMethod ∧
                cached = some line)) := by
      unfold cacheInitialize
      split
      · exact ⟨_, rfl, Or.inr ⟨hFalse, ‹_›, rfl⟩⟩
      · exact ⟨_, rfl, Or.inl rfl⟩
    rcases hCached with ⟨cached, hEq, hWhich⟩
    rw [hEq]
    unfold keepFirst
    split
    · rename_i hKeep
      simp only [Bool.and_eq_true,
        Option.isNone_iff_eq_none] at hKeep
      exact ⟨_, _, _, rfl, hWhich,
        Or.inr ⟨hFalse, hKeep.1, hKeep.2, rfl, rfl⟩⟩
    · exact ⟨_, _, _, rfl, hWhich, Or.inl ⟨rfl, rfl⟩⟩

/- A line becomes the first request that is kept. -/
def Keeping
    (codec : Codec Line Value)
    (t : Tracker Line Value)
    (line : Numbered Line)
    (kept : Option (KeptRequest Line Value))
    (generation : Nat) : Prop :=
  ∃ id method,
    codec.request line.line = some (id, method) ∧
      t.initialised = false ∧ t.keptFirst = none ∧
      countsForLifecycle method = true ∧
      generation = t.keptGeneration + 1 ∧
      kept =
        some ⟨id, line, method = initializeMethod,
          t.keptGeneration + 1⟩

/- What a line of the client can change. -/
theorem onClientLine_eq
    (codec : Codec Line Value)
    (t : Tracker Line Value)
    (line : Numbered Line) :
    ∃ inFlight cached initialized kept generation,
      (t.onClientLine codec line).1 =
          { t with
            inFlight := inFlight
            cachedInitialize := cached
            cachedInitialized := initialized
            keptFirst := kept
            keptGeneration := generation } ∧
        (cached = t.cachedInitialize ∨
          (t.initialised = false ∧
            (∃ id,
              codec.request line.line =
                some (id, initializeMethod)) ∧
            cached = some line)) ∧
        ((codec.isInitialized line.line = false ∧
            initialized = t.cachedInitialized) ∨
          (codec.isInitialized line.line = true ∧
            initialized = some line)) ∧
        ((kept = t.keptFirst ∧ generation = t.keptGeneration) ∨
          Keeping codec t line kept generation) ∧
        ((codec.request line.line = none ∧
            inFlight = t.inFlight) ∨
          ∃ id method,
            codec.request line.line = some (id, method) ∧
              inFlight =
                Table.upsert (key codec) ⟨id, method⟩
                  t.inFlight) := by
  have hTracks :
      Tracks codec t line (t.onClientLine codec line) :=
    tracks_onClientLine
  revert hTracks
  generalize t.onClientLine codec line = result
  intro hTracks
  cases hTracks with
  | request id method hRequest =>
      rcases t.beforeInit_eq id method line with
        ⟨cached, kept, generation, hEq, hCached, hKept⟩
      have hInitialized :
          codec.isInitialized line.line = false := by
        refine eq_false_of_ne_true (fun h => ?_)
        rw [Codec.request_of_isInitialized h] at hRequest
        cases hRequest
      refine ⟨Table.upsert (key codec) ⟨id, method⟩ t.inFlight,
        cached, _, kept, generation, ?_, ?_,
        Or.inl ⟨hInitialized, rfl⟩, ?_,
        Or.inr ⟨id, method, hRequest, rfl⟩⟩
      · rw [hEq]
        rfl
      · rcases hCached with hSame | ⟨hNot, rfl, hSome⟩
        · exact Or.inl hSame
        · exact Or.inr ⟨hNot, ⟨id, hRequest⟩, hSome⟩
      · rcases hKept with
          hSame | ⟨hNot, hNone, hCounts, hGen, hSome⟩
        · exact Or.inl hSame
        · exact Or.inr ⟨id, method, hRequest, hNot, hNone,
            hCounts, hGen, hSome⟩
  | notified hInitialized =>
      exact ⟨_, _, _, _, _, rfl, Or.inl rfl,
        Or.inr ⟨hInitialized, rfl⟩, Or.inl ⟨rfl, rfl⟩,
        Or.inl ⟨Codec.request_of_isInitialized hInitialized,
          rfl⟩⟩
  | other kind _ hRequest hInitialized =>
      exact ⟨_, _, _, _, _, rfl, Or.inl rfl,
        Or.inl ⟨hInitialized, rfl⟩, Or.inl ⟨rfl, rfl⟩,
        Or.inl ⟨hRequest, rfl⟩⟩

/-
  An answer may initialise the session, and it may end the
  wait for the kept first request.
-/
theorem onAnswer_eq
    (codec : Codec Line Value)
    (t : Tracker Line Value)
    (id : Value)
    (method : String)
    (result error : Bool) :
    ∃ initialised kept,
      t.onAnswer codec id method result error =
          { t with
            initialised := initialised
            keptFirst := kept } ∧
        ((initialised = t.initialised ∧ kept = t.keptFirst) ∨
          (initialised = true ∧ kept = none) ∨
          (initialised = t.initialised ∧ kept = none)) := by
  unfold onAnswer
  split
  · exact ⟨_, _, rfl, Or.inl ⟨rfl, rfl⟩⟩
  · split
    · exact ⟨_, _, rfl, Or.inr (Or.inl ⟨rfl, rfl⟩)⟩
    · split
      · exact ⟨_, _, rfl, Or.inr (Or.inr ⟨rfl, rfl⟩)⟩
      · exact ⟨_, _, rfl, Or.inl ⟨rfl, rfl⟩⟩

/- What a line of a daemon does. -/
theorem onDaemonLine_eq
    (codec : Codec Line Value)
    (t : Tracker Line Value)
    (line : Line) :
    ∃ inFlight initialised kept,
      t.onDaemonLine codec line =
          { t with
            inFlight := inFlight
            initialised := initialised
            keptFirst := kept } ∧
        ((initialised = t.initialised ∧ kept = t.keptFirst) ∨
          (initialised = true ∧ kept = none) ∨
          (initialised = t.initialised ∧ kept = none)) := by
  unfold onDaemonLine
  split
  · rename_i id result error _
    split
    · rename_i p _
      rcases onAnswer_eq codec (t.removeInFlight codec id) id
        p.method result error with
        ⟨initialised, kept, hEq, hWhich⟩
      exact ⟨_, initialised, kept, hEq, hWhich⟩
    · exact ⟨_, _, _, rfl, Or.inl ⟨rfl, rfl⟩⟩
  · exact ⟨_, _, _, rfl, Or.inl ⟨rfl, rfl⟩⟩

/- A response to a request in flight, or nothing. -/
theorem onDaemonLine_cases
    (codec : Codec Line Value)
    (t : Tracker Line Value)
    (line : Line) :
    (t.onDaemonLine codec line = t ∧
        ∀ id result error,
          codec.response line = some (id, result, error) →
            ∀ p ∈ t.inFlight, key codec p ≠ codec.idKey id) ∨
      ∃ id result error p,
        codec.response line = some (id, result, error) ∧
          p ∈ t.inFlight ∧ key codec p = codec.idKey id ∧
          t.onDaemonLine codec line =
            (t.removeInFlight codec id).onAnswer codec id
              p.method result error := by
  unfold onDaemonLine
  split
  · rename_i id result error hResponse
    split
    · rename_i p hFind
      have hKey := List.find?_some hFind
      exact Or.inr ⟨id, result, error, p, hResponse,
        List.mem_of_find?_eq_some hFind,
        of_decide_eq_true hKey, rfl⟩
    · rename_i hFind
      refine Or.inl ⟨rfl, fun id' result' error' h p hMem => ?_⟩
      rw [hResponse] at h
      cases h
      exact of_decide_eq_false (eq_false_of_ne_true
        (List.find?_eq_none.mp hFind p hMem))
  · rename_i hResponse
    refine Or.inl ⟨rfl, fun id result error h => ?_⟩
    rw [hResponse] at h
    cases h

/-
  An answer of the lifecycle leaves the table of ids alone.
-/
theorem inFlight_onAnswer
    (codec : Codec Line Value)
    (t : Tracker Line Value)
    (id : Value)
    (method : String)
    (result error : Bool) :
    (t.onAnswer codec id method result error).inFlight =
      t.inFlight := by
  rcases onAnswer_eq codec t id method result error with
    ⟨_, _, hEq, _⟩
  rw [hEq]

/- The daemon's lines never add an id. -/
theorem subset_onDaemonLine
    {line : Line}
    {p : Pending Value}
    (hMem : p ∈ (t.onDaemonLine codec line).inFlight) :
    p ∈ t.inFlight := by
  rcases t.onDaemonLine_cases codec line with
    ⟨hEq, _⟩ | ⟨id, result, error, q, _, _, _, hEq⟩
  · rwa [hEq] at hMem
  · rw [hEq, inFlight_onAnswer] at hMem
    exact (Table.mem_delete_iff.mp hMem).1

/- The daemon's lines never end a session that has begun. -/
theorem initialised_onDaemonLine
    {line : Line}
    (hInitialised : t.initialised = true) :
    (t.onDaemonLine codec line).initialised = true := by
  rcases onDaemonLine_eq codec t line with
    ⟨_, initialised, _, hEq, hWhich⟩
  rw [hEq]
  rcases hWhich with ⟨rfl, _⟩ | ⟨rfl, _⟩ | ⟨rfl, _⟩
  · exact hInitialised
  · rfl
  · exact hInitialised

/- The client's lines never begin a session. -/
theorem initialised_onClientLine :
    (t.onClientLine codec line).1.initialised =
      t.initialised := by
  rcases onClientLine_eq codec t line with
    ⟨_, _, _, _, _, hEq, _⟩
  rw [hEq]

/-
  The notification is handled by its own branch, whatever
  else the tracker knows.
-/
theorem kind_of_isInitialized
    (hInitialized : codec.isInitialized line.line = true) :
    (t.onClientLine codec line).2 =
      (t.onInitialized line).2 := by
  have hTracks :
      Tracks codec t line (t.onClientLine codec line) :=
    tracks_onClientLine
  revert hTracks
  generalize t.onClientLine codec line = result
  intro hTracks
  cases hTracks with
  | request id method hRequest =>
      rw [Codec.request_of_isInitialized hInitialized] at hRequest
      cases hRequest
  | notified _ => rfl
  | other kind _ _ hOther =>
      rw [hInitialized] at hOther
      cases hOther

/- What is called a request has a method and an id. -/
theorem request_of_kind
    (hKind : (t.onClientLine codec line).2 = .request) :
    codec.request line.line ≠ none := by
  have hTracks :
      Tracks codec t line (t.onClientLine codec line) :=
    tracks_onClientLine
  revert hKind hTracks
  generalize t.onClientLine codec line = result
  intro hKind hTracks
  cases hTracks with
  | request id method hRequest =>
      rw [hRequest]
      simp
  | notified _ =>
      unfold onInitialized at hKind
      split at hKind <;> cases hKind
  | other kind hOther _ _ =>
      rcases hOther with rfl | rfl <;> cases hKind

end Lines

end Tracker

end Proxy

end Ferrex
