import Mathlib.Data.List.Basic

/-
  A listing that is fetched page by page: each page comes with
  the entry that the next one begins with, and the last one
  comes without.

  Main declarations:
    * `Paging.page`, `Paging.Pages`
    * `Paging.collect`, `Paging.collect_eq`
-/

------------------------------------------------------------
-- Pages
------------------------------------------------------------

namespace Ferrex

namespace Paging

variable {A B : Type}

/- The first entries, and the one that comes after them. -/
def page
    (limit : Nat)
    (entries : List A) : List A × Option A :=
  (entries.take limit, (entries.drop limit).head?)

/- The pages are those of one listing, from its start on. -/
structure Pages
    (fetch : Option A → List A × Option A)
    (limit : Nat)
    (listing : List A) : Prop where
  first : fetch none = page limit listing
  next :
    ∀ front a rest, listing = front ++ a :: rest →
      fetch (some a) = page limit (a :: rest)

/-
  Fetches pages until the last one, and reads their entries.
  Without fuel for all of them, there is no result.
-/
def collect
    (fetch : Option A → List A × Option A)
    (read : A → Option B) :
    Nat → Option A → List B → Option (List B)
| 0, _, _ => none
| fuel + 1, offset, found =>
    let answer := fetch offset
    let found := found ++ answer.1.filterMap read
    match answer.2 with
    | some next => collect fetch read fuel (some next) found
    | none => some found

------------------------------------------------------------
-- All Pages
------------------------------------------------------------

variable {fetch : Option A → List A × Option A}
variable {read : A → Option B} {limit fuel : Nat}
variable {listing : List A}

/- What is left to fetch after a page that is not the last. -/
private theorem collect_page
    {entries : List A} {offset : Option A}
    {found : List B}
    (hFetch : fetch offset = page limit entries)
    (hRest :
      ∀ taken a rest, entries = taken ++ a :: rest →
        entries.take limit = taken →
          collect fetch read fuel (some a)
              (found ++ taken.filterMap read) =
            some (found ++ taken.filterMap read ++
              (a :: rest).filterMap read)) :
    collect fetch read (fuel + 1) offset found =
      some (found ++ entries.filterMap read) := by
  unfold collect
  rw [hFetch]
  dsimp only [page]
  have hParts := List.take_append_drop limit entries
  cases hDrop : entries.drop limit with
  | nil =>
      rw [hDrop, List.append_nil] at hParts
      rw [List.head?_nil, hParts]
  | cons a rest =>
      rw [hDrop] at hParts
      rw [List.head?_cons]
      dsimp only
      rw [hRest _ a rest hParts.symm rfl, List.append_assoc,
        ← List.filterMap_append, hParts]

/- From an entry on, the pages hold the rest of the listing. -/
private theorem collect_from
    (hPages : Pages fetch limit listing)
    (hLimit : 0 < limit)
    {front rest : List A} {a : A} {found : List B}
    (hListing : listing = front ++ a :: rest)
    (hFuel : (a :: rest).length ≤ fuel) :
    collect fetch read fuel (some a) found =
      some (found ++ (a :: rest).filterMap read) := by
  induction fuel generalizing front a rest found with
  | zero => simp at hFuel
  | succ fuel ih =>
      apply collect_page (hPages.next front a rest hListing)
      intro taken b rest' hSplit hTaken
      have hNext : listing = (front ++ taken) ++ b :: rest' := by
        rw [hListing, hSplit, List.append_assoc]
      apply ih hNext
      -- A page is not empty, so that less is left.
      have hSome : 0 < taken.length := by
        rw [← hTaken, List.length_take]
        simp only [List.length_cons]
        omega
      have hLength := congrArg List.length hSplit
      rw [List.length_append] at hLength
      omega

theorem collect_eq
    (hPages : Pages fetch limit listing)
    (hLimit : 0 < limit)
    (hFuel : listing.length < fuel) :
    collect fetch read fuel none [] =
      some (listing.filterMap read) := by
  cases fuel with
  | zero => omega
  | succ fuel =>
      apply collect_page hPages.first
      intro taken a rest hSplit _
      apply collect_from hPages hLimit hSplit
      have hLength := congrArg List.length hSplit
      rw [List.length_append] at hLength
      omega

end Paging

end Ferrex
