import Mathlib.Data.List.Sort
import Mathlib.Algebra.Order.Ring.Rat
import Ferrex.Lib.Jaro
import Ferrex.Lib.Text
import Ferrex.Store.Vector

/-
  What the service takes from outside: the embedding model,
  the nearest-neighbour search, string similarity and the
  supply of UUIDs.

  Main declarations:
    * `Env`
    * `ExactSearch`
    * `normalizeText`
-/

------------------------------------------------------------
-- Environment
------------------------------------------------------------

namespace Ferrex

namespace Core

open Store

/-
  `Vec` holds embeddings and `F` the 32-bit floats of
  scores and thresholds.  `uuid n` is the text of the n-th
  UUID the process generates, and `parseUuid` gives the text
  that a parsed UUID prints as.
-/
structure Env (Vec F : Type) where
  caseData : Text.CaseData
  embed : String → Vec
  similarity : Vec → Vec → F
  nearest : NearestPoints Vec F
  jaroWinkler : String → String → Rat
  toF32 : Rat → F
  uuid : Nat → String
  parseUuid : String → Option String
  uuid_injective : ∀ m n, uuid m = uuid n → m = n
  parseUuid_uuid :
    ∀ n, parseUuid (uuid n) = some (uuid n)

namespace Env

variable {Vec F : Type}

/- By Unicode's full case mapping. -/
def toLowercase (env : Env Vec F) (s : String) : String :=
  env.caseData.toLowercase s

/- Blanks have no case. -/
theorem trim_toLowercase
    (env : Env Vec F)
    (s : String) :
    Text.trim (env.toLowercase s) =
      env.toLowercase (Text.trim s) :=
  Text.CaseData.trim_toLowercase s

end Env

/-
  A search that is exact: it answers with points it was
  given, each with its own similarity, and no point it was
  given is more similar than its first answer.
-/
structure ExactSearch
    {Vec F : Type} [LT F]
    (env : Env Vec F) : Prop where
  mem :
    ∀ points v limit id score,
      (id, score) ∈ env.nearest points v limit →
        ∃ p ∈ points, p.id = id ∧
          env.similarity p.vector v = score
  first :
    ∀ points v limit id score rest,
      env.nearest points v limit = (id, score) :: rest →
        ∀ p ∈ points,
          ¬ score < env.similarity p.vector v

------------------------------------------------------------
-- Normalized Text
------------------------------------------------------------

variable {Vec F : Type}

/-
  The normal form that predicates and entity names share:
  lowercase words, with separators read as blanks.
-/
def normalizeText
    (env : Env Vec F)
    (s : String) : String :=
  String.intercalate " "
    (Text.splitWhitespace
      (Text.replace (env.toLowercase (Text.trim s))
        ['-', '_', '/'] ' '))

/- The 64-bit float nearest to 0.85. -/
def fuzzyThreshold : Rat :=
  7656119366529843 / 9007199254740992

------------------------------------------------------------
-- An Environment to Run
------------------------------------------------------------

namespace Env

/- All UUIDs of the plain generator begin so. -/
def plainUuidPrefix : List Char :=
  "00000000-0000-7000-8000-".toList

/- The n-th UUID of a plain environment: twelve digits. -/
def plainUuid (n : Nat) : String :=
  let digits := Nat.toDigits 10 n
  String.ofList
    (plainUuidPrefix ++
      (List.replicate (12 - digits.length) '0' ++ digits))

/- Leading zeros do not count. -/
private theorem ofDigitChars_zeros
    (k : Nat)
    (digits : List Char) :
    Nat.ofDigitChars 10
        (List.replicate k '0' ++ digits) 0 =
      Nat.ofDigitChars 10 digits 0 := by
  induction k with
  | zero => simp
  | succ k ih =>
      rw [List.replicate_succ, List.cons_append,
        Nat.ofDigitChars_cons]
      exact ih

/- Different numbers make different UUIDs. -/
private theorem plainUuid_injective
    (m n : Nat)
    (h : plainUuid m = plainUuid n) :
    m = n := by
  have hDigits :=
    List.append_cancel_left (String.ofList_injective h)
  have hValue :=
    congrArg (fun ds => Nat.ofDigitChars 10 ds 0) hDigits
  simpa only [ofDigitChars_zeros,
    Nat.ofDigitChars_toDigits (by decide : 1 < 10)
      (by decide : 10 ≤ 10)] using hValue

/- Two texts are similar if they are equal. -/
def plainSimilarity (a b : String) : Rat :=
  if a = b then 1 else 0

/- The nearest points by this similarity. -/
def plainNearest : NearestPoints String Rat :=
  fun points v limit =>
    ((points.map
      (fun p => (p.id, plainSimilarity p.vector v))
        ).insertionSort (fun a b => b.2 ≤ a.2)).take limit

/-
  Texts stand for their own embeddings, which are similar
  when they are equal; the search is exact, and the
  similarity of strings is the one that the code uses.
-/
def plain : Env String Rat where
  caseData := Text.CaseData.ascii
  embed := id
  similarity := plainSimilarity
  nearest := plainNearest
  jaroWinkler a b := Jaro.winkler a.toList b.toList
  toF32 := id
  uuid := plainUuid
  parseUuid s :=
    if s.toList.take 24 = plainUuidPrefix then
      some s
    else
      none
  uuid_injective := plainUuid_injective
  parseUuid_uuid n := by
    apply if_pos
    rw [plainUuid, String.toList_ofList]
    exact List.take_left' (by decide)

/- Only the empty text is similar to the empty text. -/
theorem jaroWinkler_plain_empty
    {t : String}
    (hText : t ≠ "") :
    plain.jaroWinkler t "" = 0 :=
  Jaro.winkler_nil
    (fun h => hText (String.toList_eq_nil_iff.mp h))

/-
  It is a search which ranks what it finds, and finds all.
-/
theorem exactSearch_plain : ExactSearch plain where
  mem := by
    intro points v limit id score h
    have hSorted := List.mem_of_mem_take h
    rw [List.mem_insertionSort, List.mem_map] at hSorted
    rcases hSorted with ⟨p, hp, hEq⟩
    cases hEq
    exact ⟨p, hp, rfl, rfl⟩
  first := by
    intro points v limit id score rest h p hp hLess
    let scored :=
      (points.map
        (fun p => (p.id, plainSimilarity p.vector v))
          ).insertionSort (fun a b => b.2 ≤ a.2)
    have hSorted :
        scored.Pairwise (fun a b => b.2 ≤ a.2) :=
      List.pairwise_insertionSort _ _
    have hMem : (p.id, plainSimilarity p.vector v) ∈ scored :=
      (List.mem_insertionSort _).mpr
        (List.mem_map_of_mem hp)
    have hTake : scored.take limit = (id, score) :: rest := h
    cases hScored : scored with
    | nil => simp [hScored] at hMem
    | cons first others =>
        have hFirst : first = (id, score) := by
          cases limit with
          | zero => simp at hTake
          | succ limit =>
              rw [hScored, List.take_succ_cons] at hTake
              exact (List.cons.inj hTake).1
        rw [hScored, List.pairwise_cons] at hSorted
        rw [hScored, List.mem_cons] at hMem
        rcases hMem with hMem | hMem
        · rw [← hMem] at hFirst
          exact absurd (congrArg Prod.snd hFirst)
            (ne_of_gt hLess)
        · have hLe := hSorted.1 _ hMem
          rw [hFirst] at hLe
          exact absurd hLess (not_lt.mpr hLe)

end Env

end Core

end Ferrex
