import Mathlib.Data.List.Basic
import Mathlib.Data.List.DropRight

/-
  Unicode text as the standard library of the modelled
  language treats it: trimming and splitting at white space,
  and lowercasing with its rule for the final sigma.  The
  case data of Unicode are a parameter.

  Main declarations:
    * `Text.trim`, `Text.splitWhitespace`
    * `Text.CaseData`, `Text.CaseData.toLowercase`
    * `Text.CaseData.trim_toLowercase`
    * `Text.CaseData.Idempotent`, `Text.CaseData.Lowered`
-/

------------------------------------------------------------
-- White Space
------------------------------------------------------------

namespace Text

/- The characters with the property `White_Space`. -/
def isWhitespace (c : Char) : Bool :=
  decide
    ((9 ≤ c.toNat ∧ c.toNat ≤ 13) ∨
      c.toNat = 0x20 ∨ c.toNat = 0x85 ∨
      c.toNat = 0xA0 ∨ c.toNat = 0x1680 ∨
      (0x2000 ≤ c.toNat ∧ c.toNat ≤ 0x200A) ∨
      c.toNat = 0x2028 ∨ c.toNat = 0x2029 ∨
      c.toNat = 0x202F ∨ c.toNat = 0x205F ∨
      c.toNat = 0x3000)

def trimChars (cs : List Char) : List Char :=
  (cs.dropWhile isWhitespace).rdropWhile isWhitespace

def trim (s : String) : String :=
  String.ofList (trimChars s.toList)

/- The non-empty pieces between white space. -/
def splitWhitespace (s : String) : List String :=
  ((s.toList.splitOnP isWhitespace).filter
    (fun piece => piece ≠ [])).map String.ofList

/- Every character of a set, replaced by one character. -/
def replace
    (s : String)
    (set : List Char)
    (c : Char) : String :=
  String.ofList
    (s.toList.map (fun d => if d ∈ set then c else d))

------------------------------------------------------------
-- Lowercase
------------------------------------------------------------

/-
  The case data of Unicode: the lowercase mapping of single
  characters and the two properties that decide how a sigma
  is lowered.  White space has no case, and nothing is
  lowered to or from it.
-/
structure CaseData where
  lower : Char → List Char
  cased : Char → Bool
  caseIgnorable : Char → Bool
  lower_ne_nil : ∀ c, lower c ≠ []
  lower_whitespace :
    ∀ c, isWhitespace c = true → lower c = [c]
  not_whitespace_of_mem_lower :
    ∀ c d, isWhitespace c = false → d ∈ lower c →
      isWhitespace d = false
  not_cased_of_whitespace :
    ∀ c, isWhitespace c = true → cased c = false
  not_ignorable_of_whitespace :
    ∀ c, isWhitespace c = true → caseIgnorable c = false

namespace CaseData

private theorem toNat_ofNat
    {n : Nat}
    (hValid : n.isValidChar) :
    (Char.ofNat n).toNat = n := by
  rw [Char.ofNat, dif_pos hValid]
  rfl

/- The case data of the ASCII characters alone. -/
def ascii : CaseData where
  lower c :=
    if 65 ≤ c.toNat ∧ c.toNat ≤ 90 then
      [Char.ofNat (c.toNat + 32)]
    else
      [c]
  cased c :=
    decide
      ((65 ≤ c.toNat ∧ c.toNat ≤ 90) ∨
        (97 ≤ c.toNat ∧ c.toNat ≤ 122))
  caseIgnorable c :=
    decide
      (c.toNat = 0x27 ∨ c.toNat = 0x2E ∨
        c.toNat = 0x3A ∨ c.toNat = 0x5E ∨
        c.toNat = 0x60)
  lower_ne_nil := by
    intro c
    split <;> simp
  lower_whitespace := by
    intro c hWhite
    simp only [isWhitespace, decide_eq_true_eq] at hWhite
    exact if_neg (by omega)
  not_whitespace_of_mem_lower := by
    intro c d hBlack hd
    split at hd
    · have hValid : (c.toNat + 32).isValidChar :=
        Or.inl (by omega)
      have hNat : d.toNat = c.toNat + 32 := by
        rw [List.mem_singleton.mp hd, toNat_ofNat hValid]
      simp only [isWhitespace, decide_eq_false_iff_not]
      omega
    · rw [List.mem_singleton.mp hd]
      exact hBlack
  not_cased_of_whitespace := by
    intro c hWhite
    simp only [isWhitespace, decide_eq_true_eq,
      decide_eq_false_iff_not] at hWhite ⊢
    omega
  not_ignorable_of_whitespace := by
    intro c hWhite
    simp only [isWhitespace, decide_eq_true_eq,
      decide_eq_false_iff_not] at hWhite ⊢
    omega

variable (u : CaseData)

/- The first character that is not ignorable is cased. -/
def ignorableThenCased (cs : List Char) : Bool :=
  match cs.dropWhile u.caseIgnorable with
  | [] => false
  | c :: _ => u.cased c

/-
  A sigma is final after a cased letter, when none follows.
  The characters before it are given nearest first.
-/
def lowerAt
    (before : List Char)
    (c : Char)
    (after : List Char) : List Char :=
  if c = 'Σ' then
    if u.ignorableThenCased before &&
        !u.ignorableThenCased after then
      ['ς']
    else
      ['σ']
  else
    u.lower c

def lowerFrom : List Char → List Char → List Char
| _, [] => []
| before, c :: after =>
    u.lowerAt before c after ++
      lowerFrom (c :: before) after

def toLowercase (s : String) : String :=
  String.ofList (u.lowerFrom [] s.toList)

------------------------------------------------------------
-- Lowercase and White Space
------------------------------------------------------------

variable {u}

theorem lowerAt_whitespace
    {before after : List Char} {c : Char}
    (hWhite : isWhitespace c = true) :
    u.lowerAt before c after = [c] := by
  have hSigma : c ≠ 'Σ' := by
    rintro rfl
    revert hWhite
    decide
  rw [lowerAt, if_neg hSigma, u.lower_whitespace c hWhite]

/- Anything else is lowered to anything but white space. -/
theorem lowerAt_not_whitespace
    (before after : List Char)
    {c : Char}
    (hBlack : isWhitespace c = false) :
    u.lowerAt before c after ≠ [] ∧
      ∀ d ∈ u.lowerAt before c after,
        isWhitespace d = false := by
  unfold lowerAt
  split
  · have hSigma :
        isWhitespace 'ς' = false ∧ isWhitespace 'σ' = false := by
      decide
    split
    · exact ⟨List.cons_ne_nil _ _,
        List.forall_mem_singleton.mpr hSigma.1⟩
    · exact ⟨List.cons_ne_nil _ _,
        List.forall_mem_singleton.mpr hSigma.2⟩
  · exact ⟨u.lower_ne_nil c,
      fun d hd =>
        u.not_whitespace_of_mem_lower c d hBlack hd⟩

/- White space ends a search for a cased letter. -/
theorem ignorableThenCased_append
    {xs ws : List Char}
    (hWhite : ∀ w ∈ ws, isWhitespace w = true) :
    u.ignorableThenCased (xs ++ ws) =
      u.ignorableThenCased xs := by
  induction xs with
  | nil =>
      cases ws with
      | nil => rfl
      | cons w ws =>
          have hw := hWhite w (by simp)
          simp [ignorableThenCased,
            u.not_ignorable_of_whitespace w hw,
            u.not_cased_of_whitespace w hw]
  | cons x xs ih =>
      unfold ignorableThenCased at *
      cases hx : u.caseIgnorable x with
      | true => simpa [hx] using ih
      | false => simp [hx]

/- White space around a text does not change its letters. -/
theorem lowerAt_append
    {before after ws vs : List Char} {c : Char}
    (hws : ∀ w ∈ ws, isWhitespace w = true)
    (hvs : ∀ v ∈ vs, isWhitespace v = true) :
    u.lowerAt (before ++ ws) c (after ++ vs) =
      u.lowerAt before c after := by
  unfold lowerAt
  rw [ignorableThenCased_append hws,
    ignorableThenCased_append hvs]

theorem lowerFrom_append
    (before cs : List Char)
    {ws vs : List Char}
    (hws : ∀ w ∈ ws, isWhitespace w = true)
    (hvs : ∀ v ∈ vs, isWhitespace v = true) :
    u.lowerFrom (before ++ ws) (cs ++ vs) =
      u.lowerFrom before cs ++ vs := by
  induction cs generalizing before with
  | nil =>
      simp only [List.nil_append, lowerFrom]
      induction vs generalizing before with
      | nil => rfl
      | cons v vs ih =>
          have hv := hvs v (by simp)
          have hRest :=
            ih (fun w hw => hvs w (by simp [hw]))
              (v :: before)
          rw [lowerFrom, lowerAt_whitespace hv,
            ← List.cons_append, hRest]
          rfl
  | cons c cs ih =>
      rw [List.cons_append, lowerFrom, lowerFrom,
        lowerAt_append hws hvs, ← List.cons_append, ih,
        List.append_assoc]

/- White space in front is kept and otherwise ignored. -/
theorem lowerFrom_whitespace_append
    {ws cs : List Char}
    (hws : ∀ w ∈ ws, isWhitespace w = true) :
    u.lowerFrom [] (ws ++ cs) =
      ws ++ u.lowerFrom [] cs := by
  have hGeneral :
      ∀ (vs xs : List Char),
        (∀ v ∈ vs, isWhitespace v = true) →
        (∀ x ∈ xs, isWhitespace x = true) →
          u.lowerFrom xs (vs ++ cs) =
            vs ++ u.lowerFrom [] cs := by
    intro vs
    induction vs with
    | nil =>
        intro xs _ hxs
        have hNone : ∀ v ∈ ([] : List Char),
            isWhitespace v = true := by
          simp
        simpa using
          lowerFrom_append (u := u) [] cs hxs hNone
    | cons v vs ih =>
        intro xs hvs hxs
        have hv := hvs v (by simp)
        rw [List.cons_append, lowerFrom,
          lowerAt_whitespace hv,
          ih (v :: xs) (fun w hw => hvs w (by simp [hw]))
            (by simpa [hv] using hxs)]
        rfl
  exact hGeneral ws [] hws (by simp)

------------------------------------------------------------
-- Trimming and Lowercase
------------------------------------------------------------

/- A text without white space at either end. -/
def Trimmed (cs : List Char) : Prop :=
  (∀ c ∈ cs.head?, isWhitespace c = false) ∧
    ∀ c ∈ cs.getLast?, isWhitespace c = false

theorem trimChars_of_trimmed
    {cs : List Char}
    (hTrimmed : Trimmed cs) :
    trimChars cs = cs := by
  have hFront : cs.dropWhile isWhitespace = cs := by
    cases cs with
    | nil => rfl
    | cons c cs =>
        have hc := hTrimmed.1 c rfl
        simp [hc]
  rw [trimChars, hFront]
  rw [List.rdropWhile_eq_self_iff]
  intro hNil
  have hLast :=
    hTrimmed.2 (cs.getLast hNil)
      (List.getLast?_eq_getLast_of_ne_nil hNil)
  simp [hLast]

theorem trimmed_trimChars
    (cs : List Char) :
    Trimmed (trimChars cs) := by
  constructor
  · intro c hc
    rcases List.rdropWhile_prefix isWhitespace
        (cs.dropWhile isWhitespace) with ⟨vs, hEq⟩
    have hHead :
        (cs.dropWhile isWhitespace).head? = some c := by
      rw [← hEq, List.head?_append]
      exact Option.or_eq_some_iff.mpr (Or.inl hc)
    have hNot :=
      List.head?_dropWhile_not isWhitespace cs
    simpa [hHead] using hNot
  · intro c hc
    have hNil : trimChars cs ≠ [] := by
      rintro hNil
      simp [hNil] at hc
    have hLast :=
      List.rdropWhile_last_not isWhitespace
        (cs.dropWhile isWhitespace) hNil
    have hEq : (trimChars cs).getLast hNil = c := by
      rw [List.getLast?_eq_getLast_of_ne_nil hNil] at hc
      exact Option.some.inj hc
    simpa [trimChars, ← hEq] using hLast

/- Every text is its trimmed part between white space. -/
theorem exists_append_trimChars
    (cs : List Char) :
    ∃ ws vs,
      (∀ w ∈ ws, isWhitespace w = true) ∧
      (∀ v ∈ vs, isWhitespace v = true) ∧
      cs = ws ++ (trimChars cs ++ vs) := by
  refine ⟨cs.takeWhile isWhitespace,
    (cs.dropWhile isWhitespace).rtakeWhile isWhitespace,
    fun w hw => List.mem_takeWhile_imp hw,
    fun v hv => List.mem_rtakeWhile_imp hv, ?_⟩
  rw [trimChars, List.rdropWhile_append_rtakeWhile,
    List.takeWhile_append_dropWhile]

/- Trimming removes exactly the white space at the ends. -/
theorem trimChars_append
    {ws cs vs : List Char}
    (hws : ∀ w ∈ ws, isWhitespace w = true)
    (hvs : ∀ v ∈ vs, isWhitespace v = true)
    (hTrimmed : Trimmed cs) :
    trimChars (ws ++ (cs ++ vs)) = cs := by
  have hFront :
      (ws ++ (cs ++ vs)).dropWhile isWhitespace =
        (cs ++ vs).dropWhile isWhitespace :=
    List.dropWhile_append_of_pos hws
  have hBack :
      ∀ xs : List Char,
        (xs ++ vs).rdropWhile isWhitespace =
          xs.rdropWhile isWhitespace := by
    intro xs
    unfold List.rdropWhile
    rw [List.reverse_append,
      List.dropWhile_append_of_pos
        (fun v hv => hvs v (List.mem_reverse.mp hv))]
  cases cs with
  | nil =>
      rw [trimChars, hFront, List.nil_append,
        List.rdropWhile_eq_nil_iff]
      intro x hx
      exact hvs x ((List.dropWhile_sublist _).subset hx)
  | cons c cs =>
      have hc := hTrimmed.1 c rfl
      have hStay :
          (c :: cs ++ vs).dropWhile isWhitespace =
            c :: cs ++ vs := by
        simp [hc]
      have hSelf := trimChars_of_trimmed hTrimmed
      have hDrop :
          (c :: cs).dropWhile isWhitespace = c :: cs := by
        simp [hc]
      rw [trimChars, hDrop] at hSelf
      rw [trimChars, hFront, hStay, hBack, hSelf]

theorem lowerFrom_ne_nil
    (before : List Char)
    {cs : List Char}
    (hNil : cs ≠ [])
    (hLast :
      ∀ c ∈ cs.getLast?, isWhitespace c = false) :
    u.lowerFrom before cs ≠ [] ∧
      ∀ d ∈ (u.lowerFrom before cs).getLast?,
        isWhitespace d = false := by
  induction cs generalizing before with
  | nil => exact absurd rfl hNil
  | cons c cs ih =>
      rw [lowerFrom]
      cases cs with
      | nil =>
          have hc := hLast c rfl
          have hLower :=
            lowerAt_not_whitespace (u := u) before [] hc
          simp only [lowerFrom, List.append_nil]
          exact ⟨hLower.1, fun d hd =>
            hLower.2 d (List.mem_of_getLast? hd)⟩
      | cons c' cs =>
          have hRest :=
            ih (c :: before) (by simp)
              (by simpa using hLast)
          refine ⟨by simp [hRest.1], ?_⟩
          intro d hd
          rw [List.getLast?_append_of_ne_nil _ hRest.1]
            at hd
          exact hRest.2 d hd

/- Lowercasing keeps a trimmed text trimmed. -/
theorem trimmed_lowerFrom
    {cs : List Char}
    (hTrimmed : Trimmed cs) :
    Trimmed (u.lowerFrom [] cs) := by
  cases cs with
  | nil => exact hTrimmed
  | cons c cs =>
      have hHead :=
        lowerAt_not_whitespace (u := u) [] cs
          (hTrimmed.1 c rfl)
      constructor
      · intro d hd
        rw [lowerFrom, List.head?_append_of_ne_nil _
          hHead.1] at hd
        exact hHead.2 d (List.mem_of_mem_head? hd)
      · exact (lowerFrom_ne_nil [] (by simp) hTrimmed.2).2

/-
  It makes no difference whether a text is trimmed before
  or after it is lowered.
-/
theorem trim_toLowercase
    (s : String) :
    trim (u.toLowercase s) = u.toLowercase (trim s) := by
  rcases exists_append_trimChars s.toList with
    ⟨ws, vs, hws, hvs, hEq⟩
  have hLower :
      u.lowerFrom [] s.toList =
        ws ++ (u.lowerFrom [] (trimChars s.toList) ++ vs) := by
    have hBack :
        u.lowerFrom ([] ++ []) (trimChars s.toList ++ vs) =
          u.lowerFrom [] (trimChars s.toList) ++ vs :=
      lowerFrom_append [] _ (by simp) hvs
    conv_lhs => rw [hEq]
    rw [lowerFrom_whitespace_append hws]
    simpa using hBack
  have hTrimmed :=
    trimmed_lowerFrom (u := u)
      (trimmed_trimChars s.toList)
  simp only [trim, toLowercase, String.toList_ofList]
  rw [hLower, trimChars_append hws hvs hTrimmed]

------------------------------------------------------------
-- Lowering Twice
------------------------------------------------------------

/- Lowering a lowered text changes nothing. -/
def Idempotent (u : CaseData) : Prop :=
  ∀ s, u.toLowercase (u.toLowercase s) = u.toLowercase s

/- What a character is lowered to is lowercase itself. -/
structure Lowered (u : CaseData) : Prop where
  fixed :
    ∀ c, c ≠ 'Σ' → ∀ d ∈ u.lower c, d ≠ 'Σ' ∧ u.lower d = [d]
  sigma : u.lower 'σ' = ['σ']
  finalSigma : u.lower 'ς' = ['ς']

namespace Lowered

theorem lowerAt_eq
    {before before' after after' : List Char} {c d : Char}
    (hLowered : u.Lowered)
    (hMem : d ∈ u.lowerAt before c after) :
    u.lowerAt before' d after' = [d] := by
  have hFixed : d ≠ 'Σ' ∧ u.lower d = [d] := by
    unfold lowerAt at hMem
    by_cases hSigma : c = 'Σ'
    · rw [if_pos hSigma] at hMem
      split at hMem
      · rw [List.mem_singleton.mp hMem]
        exact ⟨by decide, hLowered.finalSigma⟩
      · rw [List.mem_singleton.mp hMem]
        exact ⟨by decide, hLowered.sigma⟩
    · rw [if_neg hSigma] at hMem
      exact hLowered.fixed c hSigma d hMem
  rw [lowerAt, if_neg hFixed.1, hFixed.2]

theorem lowerAt_of_mem
    {before before' after cs : List Char} {d : Char}
    (hLowered : u.Lowered)
    (hMem : d ∈ u.lowerFrom before cs) :
    u.lowerAt before' d after = [d] := by
  induction cs generalizing before with
  | nil => cases hMem
  | cons c cs ih =>
      rw [lowerFrom, List.mem_append] at hMem
      rcases hMem with hMem | hMem
      · exact hLowered.lowerAt_eq hMem
      · exact ih hMem

theorem idempotent
    (hLowered : u.Lowered) :
    u.Idempotent := by
  intro s
  have hSame :
      ∀ (cs before : List Char),
        (∀ d ∈ cs, ∀ before' after,
          u.lowerAt before' d after = [d]) →
          u.lowerFrom before cs = cs := by
    intro cs
    induction cs with
    | nil => exact fun _ _ => rfl
    | cons c cs ih =>
        intro before hFixed
        rw [lowerFrom, hFixed c List.mem_cons_self,
          ih (c :: before) (fun d hd =>
            hFixed d (List.mem_cons_of_mem _ hd))]
        rfl
  unfold toLowercase
  rw [String.toList_ofList, hSame _ _ (fun d hd _ _ =>
    hLowered.lowerAt_of_mem hd)]

end Lowered

theorem ascii_lowered : ascii.Lowered where
  fixed := by
    intro c hSigma d hd
    have hLower :
        ∀ e : Char, ¬ (65 ≤ e.toNat ∧ e.toNat ≤ 90) →
          ascii.lower e = [e] :=
      fun e hSmall => if_neg hSmall
    by_cases hCapital : 65 ≤ c.toNat ∧ c.toNat ≤ 90
    · have hChar : d = Char.ofNat (c.toNat + 32) := by
        apply List.mem_singleton.mp
        rwa [show ascii.lower c = [Char.ofNat (c.toNat + 32)]
          from if_pos hCapital] at hd
      have hNat : d.toNat = c.toNat + 32 := by
        rw [hChar, toNat_ofNat (Or.inl (by omega))]
      refine ⟨?_, hLower d (by omega)⟩
      intro hEq
      have hValue : ('Σ').toNat = 931 := by decide
      rw [hEq, hValue] at hNat
      omega
    · rw [hLower c hCapital] at hd
      rw [List.mem_singleton.mp hd]
      exact ⟨hSigma, hLower c hCapital⟩
  sigma := by decide
  finalSigma := by decide

end CaseData

end Text
