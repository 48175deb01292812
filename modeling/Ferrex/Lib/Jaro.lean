import Mathlib.Algebra.Order.Field.Rat
import Mathlib.Data.List.Basic

/-
  The Jaro–Winkler similarity of two texts, with fractions
  in place of 64-bit floats.

  Main declarations:
    * `Jaro.pairUp`, `Jaro.jaro`
    * `Jaro.winkler`, `Jaro.winkler_nil`
-/

------------------------------------------------------------
-- Characters in Common
------------------------------------------------------------

namespace Jaro

/-
  Pairs a character with the first equal one at a place from
  `lo` to `hi` that has no partner yet; `j` is the place of
  the head.
-/
def pairUp
    (c : Char)
    (lo hi : Nat) :
    Nat → List (Char × Bool) → Option (List (Char × Bool))
| _, [] => none
| j, (d, paired) :: rest =>
    if lo ≤ j ∧ j ≤ hi ∧ c = d ∧ paired = false then
      some ((d, true) :: rest)
    else
      (pairUp c lo hi (j + 1) rest).map ((d, paired) :: ·)

/-
  The characters that find a partner no more than `range`
  places away, in order, and the text of their partners.
-/
def pairAll
    (range : Nat) :
    Nat → List Char → List (Char × Bool) →
      List Char × List (Char × Bool)
| _, [], other => ([], other)
| i, c :: text, other =>
    match pairUp c (i - range) (i + range) 0 other with
    | some other =>
        let rest := pairAll range (i + 1) text other
        (c :: rest.1, rest.2)
    | none => pairAll range (i + 1) text other

/- How far apart two characters may be, to be partners. -/
def searchRange (a b : List Char) : Nat :=
  max a.length b.length / 2 - 1

------------------------------------------------------------
-- Similarity
------------------------------------------------------------

/- The Jaro similarity, by characters in common and order. -/
def jaro (a b : List Char) : Rat :=
  let paired :=
    pairAll (searchRange a b) 0 a (b.map (·, false))
  let partners :=
    (paired.2.filter Prod.snd).map Prod.fst
  let common := paired.1.length
  let transpositions :=
    (paired.1.zip partners).countP (fun p => p.1 ≠ p.2) / 2
  if a.isEmpty && b.isEmpty then
    1
  else if common = 0 then
    0
  else
    ((common : Rat) / a.length + (common : Rat) / b.length +
      ((common - transpositions : Nat) : Rat) / common) / 3

/- How many of the first four characters are the same. -/
def commonStart (a b : List Char) : Nat :=
  (((a.take 4).zip b).takeWhile (fun p => p.1 = p.2)).length

/- Similar texts gain by a common start. -/
def winkler (a b : List Char) : Rat :=
  let similarity := jaro a b
  if 7 / 10 < similarity then
    similarity +
      1 / 10 * (commonStart a b : Rat) * (1 - similarity)
  else
    similarity

theorem pairAll_nil
    (range i : Nat)
    (text : List Char) :
    pairAll range i text [] = ([], []) := by
  induction text generalizing i with
  | nil => rfl
  | cons c text ih =>
      rw [pairAll, pairUp]
      exact ih (i + 1)

/- Nothing is similar to the empty text but itself. -/
theorem winkler_nil
    {text : List Char}
    (hText : text ≠ []) :
    winkler text [] = 0 := by
  have hJaro : jaro text [] = 0 := by
    simp [jaro, pairAll_nil, hText]
  rw [winkler, hJaro, if_neg (by decide +kernel)]

example : winkler "asleep".toList "awake".toList = 26 / 45 := by
  decide +kernel

end Jaro
