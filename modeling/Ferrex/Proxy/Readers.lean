import Ferrex.Proxy.Loop

/-
  The two readers of a response: the tracker, which a line
  may initialise, and `response_outcome`, which a replay and
  a re-sent `initialize` go by.  They agree on a request in
  flight unless a response has both a result and an error, or
  an error answers another request whose id the kept one
  equals without printing the same.

  Main declarations:
    * `Tracker.ReadersAgree`
    * `Tracker.BothMembers`, `Tracker.Mistaken`
    * `Tracker.readers_agree_iff`
-/

------------------------------------------------------------
-- The Readers
------------------------------------------------------------

namespace Ferrex

namespace Proxy

namespace Tracker

variable {Line Value : Type} {codec : Codec Line Value}
variable {t : Tracker Line Value} {line : Line}
variable {id got : Value} {result error : Bool}
variable {p : Pending Value}

/-
  The line initialises the session as the response to a
  request just when it is a success for its id, and it drops
  the kept request with this id as failed just when it is an
  error for it.
-/
structure ReadersAgree
    (codec : Codec Line Value)
    (t : Tracker Line Value)
    (line : Line)
    (id : Value) : Prop where
  success :
    ((t.onDaemonLine codec line).initialised = true ∧
        (t.onDaemonLine codec line).isInFlight codec id =
          false) ↔
      responseOutcome codec line id = some .success
  error :
    ∀ kept, t.keptFirst = some kept →
      codec.idKey kept.id = codec.idKey id →
        (((t.onDaemonLine codec line).keptFirst = none ∧
            (t.onDaemonLine codec line).initialised = false) ↔
          responseOutcome codec line id = some .error)

/- A response to the id with a result and an error. -/
def BothMembers
    (codec : Codec Line Value)
    (line : Line)
    (id : Value) : Prop :=
  ∃ got, codec.response line = some (got, true, true) ∧
    codec.idKey got = codec.idKey id

/-
  An error for another request in flight, with an id that
  equals that of the kept request but prints differently.
-/
def Mistaken
    (codec : Codec Line Value)
    (t : Tracker Line Value)
    (line : Line)
    (id : Value) : Prop :=
  ∃ kept got result p, t.keptFirst = some kept ∧
    codec.idKey kept.id = codec.idKey id ∧
    codec.response line = some (got, result, true) ∧
    codec.idKey got ≠ codec.idKey id ∧
    codec.sameId kept.id got = true ∧
    t.inFlight.find?
      (fun p => key codec p = codec.idKey got) = some p ∧
    (result && countsForLifecycle p.method) = false

------------------------------------------------------------
-- A Response
------------------------------------------------------------

/- What is found among the requests is in flight. -/
theorem isInFlight_of_find?
    (hFind :
      t.inFlight.find?
        (fun p => key codec p = codec.idKey id) = some p) :
    t.isInFlight codec id = true :=
  List.any_eq_true.mpr ⟨p, List.mem_of_find?_eq_some hFind, by
    have hTest := List.find?_some hFind
    exact hTest⟩

/- A response takes the requests of its own id. -/
theorem isInFlight_removeInFlight :
    (t.removeInFlight codec got).isInFlight codec id =
      (t.isInFlight codec id &&
        decide (codec.idKey got ≠ codec.idKey id)) := by
  unfold isInFlight removeInFlight Table.delete
  rw [List.any_filter]
  by_cases hKey : codec.idKey got = codec.idKey id
  · rw [hKey]
    simp
  · rw [decide_eq_true hKey, Bool.and_true]
    congr 1
    funext p
    by_cases hp : key codec p = codec.idKey id
    · simp [hp, Ne.symm hKey]
    · simp [hp]

/- An answer does not touch the other requests. -/
theorem isInFlight_onAnswer
    {method : String} :
    (t.onAnswer codec got method result error).isInFlight
        codec id =
      t.isInFlight codec id := by
  unfold isInFlight
  rw [inFlight_onAnswer]

/- What a response does before the session is initialised. -/
theorem initialised_onAnswer
    {method : String}
    (hNot : t.initialised = false) :
    (t.onAnswer codec got method result error).initialised =
      (result && countsForLifecycle method) := by
  unfold onAnswer
  rw [hNot, if_neg (by simp)]
  cases hSuccess : result && countsForLifecycle method with
  | true => rfl
  | false =>
      rw [if_neg (by simp)]
      split
      · rfl
      · exact hNot

/-
  The kept request is given up after a success that counts,
  or after its own error.
-/
theorem keptFirst_onAnswer_eq_none_iff
    {method : String} {kept : KeptRequest Line Value}
    (hNot : t.initialised = false)
    (hKept : t.keptFirst = some kept) :
    (t.onAnswer codec got method result error).keptFirst =
        none ↔
      (result && countsForLifecycle method) = true ∨
        (error = true ∧ codec.sameId kept.id got = true) := by
  unfold onAnswer
  rw [hNot, if_neg (by simp), hKept]
  cases hSuccess : result && countsForLifecycle method with
  | true => simp
  | false =>
      rw [if_neg (by simp), Option.any_some]
      by_cases hError :
          (error && codec.sameId kept.id got) = true
      · rw [if_pos hError]
        rw [Bool.and_eq_true] at hError
        simp [hError]
      · rw [if_neg hError]
        rw [Bool.and_eq_true] at hError
        simp [hKept, hError]

/- A line that answers no request in flight. -/
theorem onDaemonLine_of_none
    (hNone :
      ∀ got result error,
        codec.response line = some (got, result, error) →
          t.inFlight.find?
            (fun p => key codec p = codec.idKey got) = none) :
    t.onDaemonLine codec line = t := by
  unfold onDaemonLine
  split
  · rw [hNone _ _ _ ‹_›]
  · rfl

section Response

variable
  (hNot : t.initialised = false)
  (hResponse : codec.response line = some (got, result, error))
  (hFind :
    t.inFlight.find?
      (fun p => key codec p = codec.idKey got) = some p)

include hResponse hFind in
/- The response of a request takes it out and answers it. -/
theorem onDaemonLine_of_find? :
    t.onDaemonLine codec line =
      (t.removeInFlight codec got).onAnswer codec got p.method
        result error := by
  unfold onDaemonLine
  rw [hResponse]
  dsimp only
  rw [hFind]

include hResponse hFind in
/- Its id is no longer in flight, and the others are. -/
theorem isInFlight_of_response :
    (t.onDaemonLine codec line).isInFlight codec id =
      (t.isInFlight codec id &&
        decide (codec.idKey got ≠ codec.idKey id)) := by
  rw [onDaemonLine_of_find? hResponse hFind,
    isInFlight_onAnswer, isInFlight_removeInFlight]

include hNot hResponse hFind in
/- The session begins if the success counts. -/
theorem initialised_of_response :
    (t.onDaemonLine codec line).initialised =
      (result && countsForLifecycle p.method) := by
  have hOpen : (t.removeInFlight codec got).initialised = false :=
    hNot
  rw [onDaemonLine_of_find? hResponse hFind,
    initialised_onAnswer hOpen]

include hNot hResponse hFind in
/- When the kept request is given up, read off the line. -/
theorem keptFirst_of_response
    {kept : KeptRequest Line Value}
    (hKept : t.keptFirst = some kept) :
    (t.onDaemonLine codec line).keptFirst = none ↔
      (result && countsForLifecycle p.method) = true ∨
        (error = true ∧ codec.sameId kept.id got = true) := by
  have hOpen : (t.removeInFlight codec got).initialised = false :=
    hNot
  have hStill :
      (t.removeInFlight codec got).keptFirst = some kept :=
    hKept
  rw [onDaemonLine_of_find? hResponse hFind,
    keptFirst_onAnswer_eq_none_iff hOpen hStill]

end Response

/- The other reader takes no notice of another id. -/
theorem responseOutcome_of_other
    (hResponse : codec.response line = some (got, result, error))
    (hKey : codec.idKey got ≠ codec.idKey id) :
    responseOutcome codec line id = none := by
  unfold responseOutcome
  rw [hResponse]
  exact if_pos hKey

/- For its own it looks at the error first. -/
theorem responseOutcome_of_same
    (hResponse : codec.response line = some (got, result, error))
    (hKey : codec.idKey got = codec.idKey id) :
    responseOutcome codec line id =
      if error then
        some .error
      else if result then
        some .success
      else
        none := by
  unfold responseOutcome
  rw [hResponse]
  exact if_neg (not_not.mpr hKey)

------------------------------------------------------------
-- Where They Agree
------------------------------------------------------------

/- A line that leaves the session as it is is no response. -/
theorem readersAgree_of_unchanged
    (hNot : t.initialised = false)
    (hSame : t.onDaemonLine codec line = t)
    (hOutcome : responseOutcome codec line id = none) :
    ReadersAgree codec t line id := by
  constructor
  · rw [hSame, hOutcome, hNot]
    simp
  · intro kept hKept _
    rw [hSame, hOutcome, hKept]
    simp

/- The response to the request itself. -/
theorem readersAgree_own_iff
    (hNot : t.initialised = false)
    (hCounts : countsForLifecycle p.method = true)
    (hFind :
      t.inFlight.find?
        (fun p => key codec p = codec.idKey got) = some p)
    (hResponse : codec.response line = some (got, result, error))
    (hKey : codec.idKey got = codec.idKey id) :
    ReadersAgree codec t line id ↔
      ¬ (result = true ∧ error = true) := by
  have hOutcome := responseOutcome_of_same hResponse hKey
  have hInit :
      (t.onDaemonLine codec line).initialised = result := by
    rw [initialised_of_response hNot hResponse hFind, hCounts,
      Bool.and_true]
  have hTaken :
      (t.onDaemonLine codec line).isInFlight codec id =
        false := by
    rw [isInFlight_of_response hResponse hFind]
    simp [hKey]
  constructor
  · rintro hAgree ⟨hResult, hError⟩
    have hSuccess := hAgree.success.mp
      ⟨hInit.trans hResult, hTaken⟩
    rw [hOutcome, hError] at hSuccess
    cases hSuccess
  · intro hOne
    constructor
    · rw [hInit, hTaken, hOutcome]
      cases result <;> cases error <;> simp_all
    · intro kept hKept hId
      have hSame : codec.sameId kept.id got = true :=
        codec.sameId_of_idKey _ _ (hId.trans hKey.symm)
      rw [hInit, hOutcome,
        keptFirst_of_response hNot hResponse hFind hKept,
        hCounts, hSame]
      cases result <;> cases error <;> simp_all

/- The response to another request in flight. -/
theorem readersAgree_other_iff
    (hNot : t.initialised = false)
    (hInFlight : t.isInFlight codec id = true)
    (hFind :
      t.inFlight.find?
        (fun p => key codec p = codec.idKey got) = some p)
    (hResponse : codec.response line = some (got, result, error))
    (hKey : codec.idKey got ≠ codec.idKey id) :
    ReadersAgree codec t line id ↔
      ¬ ∃ kept, t.keptFirst = some kept ∧
        codec.idKey kept.id = codec.idKey id ∧
        error = true ∧ codec.sameId kept.id got = true ∧
        (result && countsForLifecycle p.method) = false := by
  have hOutcome := responseOutcome_of_other hResponse hKey
  have hLeft :
      (t.onDaemonLine codec line).isInFlight codec id = true := by
    rw [isInFlight_of_response hResponse hFind, hInFlight]
    simp [hKey]
  have hInit := initialised_of_response hNot hResponse hFind
  constructor
  · rintro hAgree ⟨kept, hKept, hId, hError, hSame, hFailure⟩
    have hGone :
        (t.onDaemonLine codec line).keptFirst = none :=
      (keptFirst_of_response hNot hResponse hFind hKept).mpr
        (Or.inr ⟨hError, hSame⟩)
    have hDropped :=
      (hAgree.error kept hKept hId).mp
        ⟨hGone, hInit.trans hFailure⟩
    rw [hOutcome] at hDropped
    cases hDropped
  · intro hNone
    constructor
    · rw [hLeft, hOutcome]
      simp
    · intro kept hKept hId
      rw [hOutcome, hInit,
        keptFirst_of_response hNot hResponse hFind hKept]
      constructor
      · rintro ⟨hSuccess | ⟨hError, hSame⟩, hFailure⟩
        · rw [hFailure] at hSuccess
          cases hSuccess
        · exact absurd
            ⟨kept, hKept, hId, hError, hSame, hFailure⟩ hNone
      · intro h
        cases h

/- The readers agree on all other lines. -/
theorem readers_agree_iff
    (hNot : t.initialised = false)
    (hFind :
      t.inFlight.find?
        (fun p => key codec p = codec.idKey id) = some p)
    (hCounts : countsForLifecycle p.method = true) :
    ReadersAgree codec t line id ↔
      ¬ BothMembers codec line id ∧
        ¬ Mistaken codec t line id := by
  have hInFlight := isInFlight_of_find? hFind
  cases hResponse : codec.response line with
  | none =>
      have hUnchanged : t.onDaemonLine codec line = t := by
        apply onDaemonLine_of_none
        intro got result error h
        rw [hResponse] at h
        cases h
      have hOutcome : responseOutcome codec line id = none := by
        unfold responseOutcome
        rw [hResponse]
      have hAgree :=
        readersAgree_of_unchanged hNot hUnchanged hOutcome
      simp [hAgree, BothMembers, Mistaken, hResponse]
  | some answer =>
      rcases answer with ⟨got, result, error⟩
      by_cases hKey : codec.idKey got = codec.idKey id
      · have hOwn :
            t.inFlight.find?
              (fun p => key codec p = codec.idKey got) =
                some p := by
          rw [hKey]
          exact hFind
        rw [readersAgree_own_iff hNot hCounts hOwn hResponse hKey]
        simp [BothMembers, Mistaken, hResponse, hKey]
      · cases hOther :
            t.inFlight.find?
              (fun p => key codec p = codec.idKey got) with
        | none =>
            have hUnchanged : t.onDaemonLine codec line = t := by
              apply onDaemonLine_of_none
              intro got' result' error' h
              rw [hResponse] at h
              cases h
              exact hOther
            have hAgree :=
              readersAgree_of_unchanged hNot hUnchanged
                (responseOutcome_of_other hResponse hKey)
            simp [hAgree, BothMembers, Mistaken, hResponse, hKey,
              hOther]
        | some q =>
            rw [readersAgree_other_iff hNot hInFlight hOther
              hResponse hKey]
            simp [BothMembers, Mistaken, hResponse, hKey, hOther]

/- The client has sent `initialize`. -/
private def opening : Tracker (Envelope String) String :=
  (Tracker.default.onClientLine .members
    ⟨0, .call "0" "initialize"⟩).1

/-
  A response with a result and an error initialises the
  session, and is an error.
-/
theorem readers_disagree_on_both :
    opening.initialised = false ∧
      opening.inFlight.find?
          (fun p => key .members p = Codec.members.idKey "0") =
        some ⟨"0", initializeMethod⟩ ∧
      countsForLifecycle initializeMethod = true ∧
      ¬ ReadersAgree .members opening
        ⟨some "0", none, true, true⟩ "0" := by
  refine ⟨rfl, rfl, by decide +kernel, ?_⟩
  intro hAgree
  have hSuccess := hAgree.success.mp
    ⟨by decide +kernel, by decide +kernel⟩
  exact absurd hSuccess (by decide +kernel)

/- An error drops the kept request, as both readers say. -/
theorem readers_agree_iff_initialize :
    (opening.onDaemonLine .members
        ⟨some "0", none, false, true⟩).keptFirst = none ∧
      ReadersAgree .members opening
        ⟨some "0", none, false, true⟩ "0" := by
  refine ⟨by decide +kernel, ?_⟩
  refine (readers_agree_iff rfl rfl (by decide +kernel)).mpr
    ⟨?_, ?_⟩
  · rintro ⟨_, hBoth, _⟩
    cases hBoth
  · rintro ⟨_, _, _, _, _, _, hError, hOther, _⟩
    cases hError
    exact hOther rfl

end Tracker

end Proxy

end Ferrex
