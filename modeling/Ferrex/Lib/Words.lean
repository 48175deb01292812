import Ferrex.Lib.Text

/-
  Normal forms of texts: lowercase words between single
  blanks, with some characters read as blanks.  A lowercase
  mapping that may be applied twice makes the normal form of
  a normal form the text itself.

  Main declarations:
    * `Text.words`, `Text.unwords`, `Text.words_unwords`
    * `Text.SingleBlanks`
    * `Text.CaseData.Settled`
    * `Text.normalForm`, `Text.normalForm_idempotent`
    * `Text.Visible`
-/

------------------------------------------------------------
-- Words
------------------------------------------------------------

namespace Text

/- The non-empty pieces between white space. -/
def words (cs : List Char) : List (List Char) :=
  (cs.splitOnP isWhitespace).filter (fun piece => piece ≠ [])

/- Words with a blank between any two of them. -/
def unwords (ws : List (List Char)) : List Char :=
  List.intercalate [' '] ws

/- Some characters, none of them white space. -/
structure IsWord (w : List Char) : Prop where
  ne_nil : w ≠ []
  black : ∀ c ∈ w, isWhitespace c = false

/- The blank itself is one of them. -/
theorem isWhitespace_blank : isWhitespace ' ' = true := by
  decide

/- Pieces have the characters that do not split. -/
private theorem of_mem_splitOnP
    {cs piece : List Char} {c : Char}
    (hPiece : piece ∈ cs.splitOnP isWhitespace)
    (hMem : c ∈ piece) :
    c ∈ cs ∧ isWhitespace c = false := by
  induction cs generalizing piece with
  | nil => simp_all
  | cons x cs ih =>
      rw [List.splitOnP_cons_eq_if_modifyHead] at hPiece
      cases hWhite : isWhitespace x with
      | true =>
          rw [hWhite, if_pos rfl, List.mem_cons] at hPiece
          rcases hPiece with rfl | hPiece
          · cases hMem
          · have hRest := ih hPiece hMem
            exact ⟨List.mem_cons_of_mem _ hRest.1, hRest.2⟩
      | false =>
          rw [hWhite, if_neg (by decide)] at hPiece
          cases hSplit : cs.splitOnP isWhitespace with
          | nil => exact absurd hSplit (List.splitOnP_ne_nil _ _)
          | cons first pieces =>
              rw [hSplit] at hPiece ih
              simp only [List.modifyHead_cons,
                List.mem_cons] at hPiece
              rcases hPiece with rfl | hPiece
              · rcases List.mem_cons.mp hMem with rfl | hMem
                · exact ⟨List.mem_cons_self, hWhite⟩
                · have hRest := ih List.mem_cons_self hMem
                  exact ⟨List.mem_cons_of_mem _ hRest.1,
                    hRest.2⟩
              · have hRest :=
                  ih (List.mem_cons_of_mem _ hPiece) hMem
                exact ⟨List.mem_cons_of_mem _ hRest.1, hRest.2⟩

/- Every other character is in one of the pieces. -/
private theorem exists_mem_splitOnP
    {cs : List Char} {c : Char}
    (hMem : c ∈ cs)
    (hBlack : isWhitespace c = false) :
    ∃ piece ∈ cs.splitOnP isWhitespace, c ∈ piece := by
  induction cs with
  | nil => cases hMem
  | cons x cs ih =>
      rw [List.splitOnP_cons_eq_if_modifyHead]
      cases hSplit : cs.splitOnP isWhitespace with
      | nil => exact absurd hSplit (List.splitOnP_ne_nil _ _)
      | cons first pieces =>
          rw [hSplit] at ih
          cases hWhite : isWhitespace x with
          | true =>
              rcases List.mem_cons.mp hMem with rfl | hMem
              · rw [hWhite] at hBlack
                cases hBlack
              · rcases ih hMem with ⟨piece, hPiece, hIn⟩
                exact ⟨piece,
                  List.mem_cons_of_mem _ hPiece, hIn⟩
          | false =>
              simp only [Bool.false_eq_true, if_false,
                List.modifyHead_cons]
              rcases List.mem_cons.mp hMem with rfl | hMem
              · exact ⟨_, List.mem_cons_self,
                  List.mem_cons_self⟩
              · rcases ih hMem with ⟨piece, hPiece, hIn⟩
                rcases List.mem_cons.mp hPiece with
                  rfl | hPiece
                · exact ⟨_, List.mem_cons_self,
                    List.mem_cons_of_mem _ hIn⟩
                · exact ⟨piece,
                    List.mem_cons_of_mem _ hPiece, hIn⟩

/- What is split off is a word. -/
theorem isWord_of_mem_words
    {cs w : List Char}
    (hWord : w ∈ words cs) :
    IsWord w := by
  rcases List.mem_filter.mp hWord with ⟨hPiece, hNil⟩
  exact ⟨by simpa using hNil,
    fun c hc => (of_mem_splitOnP hPiece hc).2⟩

/- Splitting makes up no characters. -/
theorem mem_of_mem_words
    {cs w : List Char} {c : Char}
    (hWord : w ∈ words cs)
    (hMem : c ∈ w) :
    c ∈ cs :=
  (of_mem_splitOnP (List.mem_filter.mp hWord).1 hMem).1

/- Only white space has no words. -/
theorem words_eq_nil_iff
    {cs : List Char} :
    words cs = [] ↔ ∀ c ∈ cs, isWhitespace c = true := by
  constructor
  · intro hNil c hMem
    by_contra hBlack
    rcases exists_mem_splitOnP hMem
        (eq_false_of_ne_true hBlack) with ⟨w, hPiece, hIn⟩
    have hWord : w ∈ words cs :=
      List.mem_filter.mpr ⟨hPiece, by
        simpa using List.ne_nil_of_mem hIn⟩
    rw [hNil] at hWord
    cases hWord
  · intro hWhite
    apply List.eq_nil_iff_forall_not_mem.mpr
    intro w hWord
    have hIs := isWord_of_mem_words hWord
    rcases List.exists_mem_of_ne_nil w hIs.ne_nil with ⟨c, hc⟩
    have hBlack := hIs.black c hc
    rw [hWhite c (mem_of_mem_words hWord hc)] at hBlack
    cases hBlack

/- Words that are joined are found again. -/
theorem words_unwords
    {ws : List (List Char)}
    (hWords : ∀ w ∈ ws, IsWord w) :
    words (unwords ws) = ws := by
  unfold words unwords
  induction ws with
  | nil => simp
  | cons w ws ih =>
      have hWord := hWords w List.mem_cons_self
      have hRest :=
        ih (fun v hv => hWords v (List.mem_cons_of_mem _ hv))
      cases ws with
      | nil =>
          rw [List.intercalate_singleton,
            List.splitOnP_eq_singleton hWord.black]
          simp [hWord.ne_nil]
      | cons v ws =>
          rw [List.intercalate_cons_cons, List.append_assoc,
            List.singleton_append,
            List.splitOnP_append_cons_of_forall_mem
              hWord.black ' ' isWhitespace_blank,
            List.filter_cons_of_pos
              (by simpa using hWord.ne_nil),
            hRest]

/- Joining adds nothing but blanks. -/
theorem mem_unwords
    {ws : List (List Char)} {c : Char}
    (hMem : c ∈ unwords ws) :
    c = ' ' ∨ ∃ w ∈ ws, c ∈ w := by
  unfold unwords at hMem
  induction ws with
  | nil => simp at hMem
  | cons w ws ih =>
      cases ws with
      | nil =>
          rw [List.intercalate_singleton] at hMem
          exact Or.inr ⟨w, List.mem_cons_self, hMem⟩
      | cons v ws =>
          rw [List.intercalate_cons_cons, List.mem_append,
            List.mem_append, List.mem_singleton] at hMem
          rcases hMem with (hMem | hMem) | hMem
          · exact Or.inr ⟨w, List.mem_cons_self, hMem⟩
          · exact Or.inl hMem
          · rcases ih hMem with hBlank | ⟨x, hx, hIn⟩
            · exact Or.inl hBlank
            · exact Or.inr
                ⟨x, List.mem_cons_of_mem _ hx, hIn⟩

------------------------------------------------------------
-- Single Blanks
------------------------------------------------------------

/-
  White space is a blank with other characters right before
  and right after it.
-/
def SingleBlanks (cs : List Char) : Prop :=
  ∀ front c back,
    cs = front ++ c :: back → isWhitespace c = true →
      c = ' ' ∧
        (∃ b ∈ front.getLast?, isWhitespace b = false) ∧
        ∃ d ∈ back.head?, isWhitespace d = false

/- In particular there is none at either end. -/
theorem trimmed_of_singleBlanks
    {cs : List Char}
    (hBlanks : SingleBlanks cs) :
    CaseData.Trimmed cs := by
  constructor
  · intro c hHead
    by_contra hWhite
    rcases List.head?_eq_some_iff.mp hHead with ⟨back, hEq⟩
    rcases hBlanks [] c back hEq (by simpa using hWhite) with
      ⟨_, ⟨b, hb, _⟩, _⟩
    cases hb
  · intro c hLast
    by_contra hWhite
    rcases List.getLast?_eq_some_iff.mp hLast with ⟨front, hEq⟩
    rcases hBlanks front c [] hEq (by simpa using hWhite) with
      ⟨_, _, d, hd, _⟩
    cases hd

/- Words that are joined begin with the first word. -/
private theorem head?_unwords
    {w : List Char}
    (ws : List (List Char))
    (hWord : IsWord w) :
    ∃ d ∈ (unwords (w :: ws)).head?, isWhitespace d = false := by
  unfold unwords
  cases w with
  | nil => exact absurd rfl hWord.ne_nil
  | cons d w =>
      refine ⟨d, ?_, hWord.black d List.mem_cons_self⟩
      rw [List.intercalate_cons_cons_left]
      rfl

/-
  Joined words have one blank between any two, and none at
  the ends.
-/
theorem singleBlanks_unwords
    {ws : List (List Char)}
    (hWords : ∀ w ∈ ws, IsWord w) :
    SingleBlanks (unwords ws) := by
  induction ws with
  | nil =>
      intro front c back hEq _
      simp [unwords] at hEq
  | cons w ws ih =>
      have hWord := hWords w List.mem_cons_self
      have hRest :=
        ih (fun v hv => hWords v (List.mem_cons_of_mem _ hv))
      intro front c back hEq hWhite
      cases ws with
      | nil =>
          rw [unwords, List.intercalate_singleton] at hEq
          have hBlack := hWord.black c (by simp [hEq])
          rw [hWhite] at hBlack
          cases hBlack
      | cons v ws =>
          have hNext : IsWord v := hWords v (by simp)
          have hLast :
              ∃ b ∈ w.getLast?, isWhitespace b = false :=
            ⟨w.getLast hWord.ne_nil,
              List.getLast?_eq_getLast_of_ne_nil _,
              hWord.black _ (List.getLast_mem _)⟩
          have hJoin :
              w ++ ' ' :: unwords (v :: ws) =
                front ++ c :: back := by
            rw [← hEq, unwords, unwords,
              List.intercalate_cons_cons, List.append_assoc]
            rfl
          rcases List.append_eq_append_iff.mp hJoin with
            ⟨tail, hFront, hTail⟩ | ⟨tail, hw, hTail⟩
          · cases tail with
            | nil =>
                cases hTail
                rw [hFront, List.append_nil]
                exact ⟨rfl, hLast, head?_unwords ws hNext⟩
            | cons x tail =>
                have hRestEq := (List.cons.inj hTail).2
                rcases hRest tail c back hRestEq hWhite with
                  ⟨hBlank, ⟨b, hb, hBlack⟩, hBack⟩
                refine ⟨hBlank, ⟨b, ?_, hBlack⟩, hBack⟩
                rw [hFront, List.getLast?_append_of_ne_nil _
                  (List.cons_ne_nil _ _),
                  List.getLast?_cons, hb]
                rfl
          · cases tail with
            | nil =>
                cases hTail
                rw [List.append_nil] at hw
                rw [← hw]
                exact ⟨rfl, hLast, head?_unwords ws hNext⟩
            | cons x tail =>
                cases hTail
                have hBlack := hWord.black c (by simp [hw])
                rw [hWhite] at hBlack
                cases hBlack

------------------------------------------------------------
-- Lowering What Is Lowercase
------------------------------------------------------------

namespace CaseData

variable {u : CaseData}

/- No character is lowered to nothing. -/
theorem lowerAt_ne_nil
    (before : List Char)
    (c : Char)
    (after : List Char) :
    u.lowerAt before c after ≠ [] := by
  unfold lowerAt
  split
  · split <;> exact List.cons_ne_nil _ _
  · exact u.lower_ne_nil c

/- So a text does not get shorter. -/
theorem length_le_lowerFrom
    (before cs : List Char) :
    cs.length ≤ (u.lowerFrom before cs).length := by
  induction cs generalizing before with
  | nil => exact Nat.zero_le _
  | cons c cs ih =>
      have hHead :=
        List.length_pos_iff.mpr
          (lowerAt_ne_nil (u := u) before c cs)
      have hRest := ih (c :: before)
      rw [lowerFrom, List.length_append, List.length_cons]
      omega

/- A character that is its own lowercase, wherever it is. -/
structure Lower (u : CaseData) (c : Char) : Prop where
  notSigma : c ≠ 'Σ'
  lower : u.lower c = [c]

/- A blank is in lower case. -/
theorem lower_blank : u.Lower ' ' where
  notSigma := by decide
  lower := u.lower_whitespace ' ' isWhitespace_blank

/- What is in lower case stays as it is. -/
theorem lowerFrom_eq_self
    {cs : List Char}
    (before : List Char)
    (hLower : ∀ c ∈ cs, u.Lower c) :
    u.lowerFrom before cs = cs := by
  induction cs generalizing before with
  | nil => rfl
  | cons c cs ih =>
      have hc := hLower c List.mem_cons_self
      rw [lowerFrom, lowerAt, if_neg hc.notSigma, hc.lower,
        ih (c :: before)
          (fun d hd => hLower d (List.mem_cons_of_mem _ hd))]
      rfl

/-
  A text that lowering leaves as it is has such characters
  only, since no character is lowered to nothing.
-/
theorem lower_of_lowerFrom
    {before cs : List Char}
    (hSame : u.lowerFrom before cs = cs) :
    ∀ c ∈ cs, u.Lower c := by
  induction cs generalizing before with
  | nil => simp
  | cons c cs ih =>
      rw [lowerFrom] at hSame
      have hNil := lowerAt_ne_nil (u := u) before c cs
      have hLength := congrArg List.length hSame
      have hRest :=
        length_le_lowerFrom (u := u) (c :: before) cs
      cases hAt : u.lowerAt before c cs with
      | nil => exact absurd hAt hNil
      | cons d more =>
          rw [hAt] at hSame hLength
          simp only [List.length_append,
            List.length_cons] at hLength
          have hMore : more = [] :=
            List.length_eq_zero_iff.mp (by omega)
          subst hMore
          rcases List.cons.inj hSame with ⟨rfl, hTail⟩
          intro x hx
          rcases List.mem_cons.mp hx with rfl | hx
          · unfold lowerAt at hAt
            by_cases hSigma : x = 'Σ'
            · subst hSigma
              rw [if_pos rfl] at hAt
              split at hAt <;> cases hAt
            · rw [if_neg hSigma] at hAt
              exact ⟨hSigma, hAt⟩
          · exact ih hTail x hx

/-
  If lowering is idempotent, all that it makes is in lower
  case.
-/
theorem Idempotent.lower
    {s : String} {c : Char}
    (hIdempotent : u.Idempotent)
    (hMem : c ∈ (u.toLowercase s).toList) :
    u.Lower c := by
  have hSame := congrArg String.toList (hIdempotent s)
  unfold toLowercase at hSame hMem
  simp only [String.toList_ofList] at hSame hMem
  exact lower_of_lowerFrom hSame c hMem

/- A character puts its lowercase into the lowered text. -/
theorem mem_lowerFrom
    (before : List Char)
    {cs : List Char} {c : Char}
    (hMem : c ∈ cs) :
    ∃ before' after,
      ∀ d ∈ u.lowerAt before' c after,
        d ∈ u.lowerFrom before cs := by
  induction cs generalizing before with
  | nil => cases hMem
  | cons x cs ih =>
      rcases List.mem_cons.mp hMem with rfl | hMem
      · exact ⟨before, cs,
          fun d hd => List.mem_append_left _ hd⟩
      · rcases ih (x :: before) hMem with
          ⟨before', after, hIn⟩
        exact ⟨before', after,
          fun d hd => List.mem_append_right _ (hIn d hd)⟩

/- Lowering makes no separator out of another character. -/
structure AddsNone
    (u : CaseData)
    (separators : List Char) : Prop where
  lower :
    ∀ c d, c ∉ separators → d ∈ u.lower c → d ∉ separators
  sigma : 'σ' ∉ separators
  finalSigma : 'ς' ∉ separators

end CaseData

------------------------------------------------------------
-- Normal Forms
------------------------------------------------------------

/- Lowercase words, with separators read as blanks. -/
def normalForm
    (u : CaseData)
    (separators : List Char)
    (s : String) : String :=
  String.intercalate " "
    (splitWhitespace
      (replace (u.toLowercase (trim s)) separators ' '))

variable {u : CaseData}
variable {separators : List Char}
variable {s : String}

/- The normal form, as a list of characters. -/
theorem toList_normalForm :
    (normalForm u separators s).toList =
      unwords (words ((u.toLowercase (trim s)).toList.map
        (fun d => if d ∈ separators then ' ' else d))) := by
  have hPieces :
      ∀ pieces : List (List Char),
        (pieces.map String.ofList).map String.toList =
          pieces := by
    intro pieces
    induction pieces with
    | nil => rfl
    | cons piece pieces ih =>
        rw [List.map_cons, List.map_cons, ih,
          String.toList_ofList]
  rw [normalForm, String.toList_intercalate, splitWhitespace,
    hPieces, replace, String.toList_ofList,
    String.toList_ofList, unwords, words]

/- A character of a word of a normal form. -/
structure Settled
    (u : CaseData)
    (separators : List Char)
    (c : Char) : Prop where
  lower : u.Lower c
  notSeparator : c ∉ separators

/- It consists of words that are settled. -/
theorem exists_words_normalForm
    (s : String)
    (hIdempotent : u.Idempotent) :
    ∃ ws,
      (∀ w ∈ ws,
        IsWord w ∧ ∀ c ∈ w, Settled u separators c) ∧
      (normalForm u separators s).toList = unwords ws := by
  refine ⟨_, ?_, toList_normalForm⟩
  intro w hWord
  have hIs := isWord_of_mem_words hWord
  refine ⟨hIs, fun c hc => ?_⟩
  rcases List.mem_map.mp (mem_of_mem_words hWord hc) with
    ⟨d, hd, hEq⟩
  have hBlack := hIs.black c hc
  split at hEq
  · rw [← hEq, isWhitespace_blank] at hBlack
    cases hBlack
  · rw [← hEq]
    exact ⟨hIdempotent.lower hd, ‹_›⟩

/- A text of such words is its own normal form. -/
theorem normalForm_of_words
    {ws : List (List Char)}
    (hWords :
      ∀ w ∈ ws, IsWord w ∧ ∀ c ∈ w, Settled u separators c)
    (hText : s.toList = unwords ws) :
    normalForm u separators s = s := by
  have hIs : ∀ w ∈ ws, IsWord w :=
    fun w hw => (hWords w hw).1
  have hChars :
      ∀ c ∈ s.toList, c = ' ' ∨ Settled u separators c := by
    intro c hc
    rw [hText] at hc
    rcases mem_unwords hc with hBlank | ⟨w, hw, hIn⟩
    · exact Or.inl hBlank
    · exact Or.inr ((hWords w hw).2 c hIn)
  have hTrim : trimChars s.toList = s.toList := by
    apply CaseData.trimChars_of_trimmed
    apply trimmed_of_singleBlanks
    rw [hText]
    exact singleBlanks_unwords hIs
  have hLower : u.lowerFrom [] s.toList = s.toList := by
    apply CaseData.lowerFrom_eq_self
    intro c hc
    rcases hChars c hc with rfl | hSettled
    · exact CaseData.lower_blank
    · exact hSettled.lower
  have hReplace :
      s.toList.map
          (fun d => if d ∈ separators then ' ' else d) =
        s.toList := by
    refine (List.map_congr_left ?_).trans (List.map_id _)
    intro c hc
    rcases hChars c hc with rfl | hSettled
    · exact ite_self _
    · exact if_neg hSettled.notSeparator
  have hLowered : u.toLowercase (trim s) = s := by
    unfold CaseData.toLowercase trim
    rw [hTrim, String.ofList_toList, hLower,
      String.ofList_toList]
  apply String.toList_injective
  calc
    (normalForm u separators s).toList
      = unwords (words s.toList) := by
          rw [toList_normalForm, hLowered, hReplace]
    _ = s.toList := by rw [hText, words_unwords hIs]

/- So the second normalisation finds nothing to do. -/
theorem normalForm_idempotent
    (separators : List Char)
    (s : String)
    (hIdempotent : u.Idempotent) :
    normalForm u separators (normalForm u separators s) =
      normalForm u separators s := by
  rcases exists_words_normalForm s hIdempotent with
    ⟨ws, hWords, hText⟩
  exact normalForm_of_words hWords hText

/- And its blanks are single. -/
theorem singleBlanks_normalForm :
    SingleBlanks (normalForm u separators s).toList := by
  rw [toList_normalForm]
  exact singleBlanks_unwords
    (fun _ hWord => isWord_of_mem_words hWord)

/- All separators are gone, unless the blank is one. -/
theorem not_separator_of_mem_normalForm
    {c : Char}
    (hBlank : ' ' ∉ separators)
    (hMem : c ∈ (normalForm u separators s).toList) :
    c ∉ separators := by
  rw [toList_normalForm] at hMem
  rcases mem_unwords hMem with rfl | ⟨w, hWord, hIn⟩
  · exact hBlank
  · rcases List.mem_map.mp (mem_of_mem_words hWord hIn) with
      ⟨d, _, hEq⟩
    split at hEq
    · rw [← hEq]
      exact hBlank
    · rw [← hEq]
      assumption

/- The normal form is empty only for want of letters. -/
theorem of_normalForm_eq_empty
    {c : Char}
    (hAdds : u.AddsNone separators)
    (hEmpty : normalForm u separators s = "")
    (hMem : c ∈ s.toList) :
    isWhitespace c = true ∨ c ∈ separators := by
  by_contra hNeither
  rw [not_or, Bool.not_eq_true] at hNeither
  have hTrimmed : c ∈ trimChars s.toList := by
    rcases CaseData.exists_append_trimChars s.toList with
      ⟨ws, vs, hws, hvs, hEq⟩
    rw [hEq, List.mem_append, List.mem_append] at hMem
    rcases hMem with hMem | hMem | hMem
    · rw [hws c hMem] at hNeither
      cases hNeither.1
    · exact hMem
    · rw [hvs c hMem] at hNeither
      cases hNeither.1
  rcases CaseData.mem_lowerFrom (u := u) [] hTrimmed with
    ⟨before, after, hLowered⟩
  rcases CaseData.lowerAt_not_whitespace (u := u) before after
      hNeither.1 with ⟨hNil, hBlack⟩
  rcases List.exists_mem_of_ne_nil _ hNil with ⟨d, hd⟩
  have hSeparator : d ∉ separators := by
    unfold CaseData.lowerAt at hd
    split at hd
    · split at hd
      · rw [List.mem_singleton.mp hd]
        exact hAdds.finalSigma
      · rw [List.mem_singleton.mp hd]
        exact hAdds.sigma
    · exact hAdds.lower c d hNeither.2 hd
  have hNone := congrArg String.toList hEmpty
  rw [toList_normalForm] at hNone
  have hWords :
      words ((u.toLowercase (trim s)).toList.map
        (fun d => if d ∈ separators then ' ' else d)) = [] := by
    cases hEq :
        words ((u.toLowercase (trim s)).toList.map
          (fun d => if d ∈ separators then ' ' else d)) with
    | nil => rfl
    | cons w ws =>
        have hWord : IsWord w :=
          isWord_of_mem_words (by rw [hEq]; simp)
        rcases head?_unwords ws hWord with ⟨x, hx, _⟩
        rw [hEq] at hNone
        rw [hNone] at hx
        cases hx
  have hWhite := words_eq_nil_iff.mp hWords d
    (List.mem_map.mpr ⟨d, by
      rw [trim, CaseData.toLowercase, String.toList_ofList,
        String.toList_ofList]
      exact hLowered d hd, if_neg hSeparator⟩)
  rw [hBlack d hd] at hWhite
  cases hWhite

------------------------------------------------------------
-- Visible Texts
------------------------------------------------------------

/- There is something in the text but white space. -/
def Visible (s : String) : Prop :=
  ∃ c ∈ s.toList, isWhitespace c = false

/- Decided by looking for the first visible character. -/
instance (s : String) : Decidable (Visible s) :=
  decidable_of_iff
    (s.toList.any (fun c => !isWhitespace c) = true)
    (by simp [Visible])

/- Trimming hides nothing. -/
theorem visible_trim_iff :
    Visible (trim s) ↔ Visible s := by
  unfold Visible trim
  rw [String.toList_ofList]
  rcases CaseData.exists_append_trimChars s.toList with
    ⟨ws, vs, hws, hvs, hEq⟩
  constructor
  · rintro ⟨c, hc, hBlack⟩
    refine ⟨c, ?_, hBlack⟩
    rw [hEq]
    simp [hc]
  · rintro ⟨c, hc, hBlack⟩
    refine ⟨c, ?_, hBlack⟩
    rw [hEq, List.mem_append, List.mem_append] at hc
    rcases hc with hc | hc | hc
    · rw [hws c hc] at hBlack
      cases hBlack
    · exact hc
    · rw [hvs c hc] at hBlack
      cases hBlack

/- Lowering neither shows nor hides anything. -/
theorem visible_toLowercase_iff :
    Visible (u.toLowercase s) ↔ Visible s := by
  unfold Visible CaseData.toLowercase
  rw [String.toList_ofList]
  constructor
  · rintro ⟨d, hd, hBlack⟩
    by_contra hNone
    have hLower : ∀ c ∈ s.toList, u.Lower c := by
      intro c hc
      have hWhite : isWhitespace c = true := by
        by_contra hNot
        exact hNone ⟨c, hc, eq_false_of_ne_true hNot⟩
      refine ⟨?_, u.lower_whitespace c hWhite⟩
      rintro rfl
      revert hWhite
      decide
    rw [CaseData.lowerFrom_eq_self [] hLower] at hd
    exact hNone ⟨d, hd, hBlack⟩
  · rintro ⟨c, hc, hBlack⟩
    rcases CaseData.mem_lowerFrom (u := u) [] hc with
      ⟨before, after, hLowered⟩
    rcases CaseData.lowerAt_not_whitespace (u := u) before after
        hBlack with ⟨hNil, hAll⟩
    rcases List.exists_mem_of_ne_nil _ hNil with ⟨d, hd⟩
    exact ⟨d, hLowered d hd, hAll d hd⟩

/- A text is visible if its normal form is not empty. -/
theorem visible_normalForm_iff :
    Visible (normalForm u separators s) ↔
      normalForm u separators s ≠ "" := by
  constructor
  · rintro ⟨c, hc, _⟩ hEmpty
    rw [hEmpty] at hc
    cases hc
  · intro hText
    have hList : (normalForm u separators s).toList ≠ [] :=
      fun hNil => hText (String.toList_injective hNil)
    rw [toList_normalForm] at hList
    unfold Visible
    rw [toList_normalForm]
    cases hWords :
        words ((u.toLowercase (trim s)).toList.map
          (fun d => if d ∈ separators then ' ' else d)) with
    | nil =>
        rw [hWords] at hList
        exact absurd rfl hList
    | cons w ws =>
        have hWord : IsWord w :=
          isWord_of_mem_words (by rw [hWords]; simp)
        rcases head?_unwords ws hWord with ⟨d, hd, hBlack⟩
        exact ⟨d, List.mem_of_mem_head? hd, hBlack⟩

end Text
