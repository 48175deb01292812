import Mathlib.Data.Finset.Insert
import Mathlib.Data.List.Nodup
import Mathlib.Data.List.Perm.Basic
import Mathlib.Data.Sym.Sym2

/-
  A greedy choice of edges: the edges of a list are visited
  in order, one that passes a test is chosen unless both of
  its ends are covered, and its ends are covered then.

  Main declarations:
    * `Cover`, `Cover.kept`, `Cover.covered`
    * `Cover.mem_covered_iff`, `Cover.mem_covered_iff_kept`
    * `Cover.kept_congr`
    * `Cover.kept_flatten`, `Cover.kept_flatten_perm`
    * `Cover.pairs`, `Cover.mem_pairs_iff`
    * `Cover.nodup_pairs`
-/

------------------------------------------------------------
-- The Choice
------------------------------------------------------------

/- The ends of the edges, and the test that they may pass. -/
structure Cover (V E : Type) where
  fst : E → V
  snd : E → V
  test : E → Bool

namespace Cover

variable {V E : Type} [DecidableEq V]

/- The edge is chosen when these vertices are covered. -/
def Takes
    (c : Cover V E)
    (covered : Finset V)
    (e : E) : Prop :=
  c.test e = true ∧
    ¬ (c.fst e ∈ covered ∧ c.snd e ∈ covered)

instance
    (c : Cover V E)
    (covered : Finset V)
    (e : E) :
    Decidable (c.Takes covered e) :=
  inferInstanceAs (Decidable (_ ∧ _))

def cover
    (c : Cover V E)
    (covered : Finset V)
    (e : E) : Finset V :=
  insert (c.snd e) (insert (c.fst e) covered)

def kept (c : Cover V E) : List E → Finset V → List E
| [], _ => []
| e :: es, covered =>
    if c.Takes covered e then
      e :: c.kept es (c.cover covered e)
    else
      c.kept es covered

def covered (c : Cover V E) : List E → Finset V → Finset V
| [], covered => covered
| e :: es, covered =>
    if c.Takes covered e then
      c.covered es (c.cover covered e)
    else
      c.covered es covered

/- The vertex is an end of the edge. -/
def Touches (c : Cover V E) (e : E) (v : V) : Prop :=
  v = c.fst e ∨ v = c.snd e

variable {c : Cover V E} {e : E} {es es' : List E}
variable {M M' : Finset V} {v : V}

theorem mem_cover_iff :
    v ∈ c.cover M e ↔ c.Touches e v ∨ v ∈ M := by
  unfold cover Touches
  rw [Finset.mem_insert, Finset.mem_insert, ← or_assoc,
    or_comm (a := v = c.snd e)]

------------------------------------------------------------
-- What Is Covered
------------------------------------------------------------

/-
  However the edges are ordered, the covered vertices are
  the ends of those that pass the test.
-/
theorem mem_covered_iff :
    v ∈ c.covered es M ↔
      v ∈ M ∨ ∃ e ∈ es, c.test e = true ∧ c.Touches e v := by
  induction es generalizing M with
  | nil => simp [covered]
  | cons e es ih =>
      rw [covered]
      by_cases hTakes : c.Takes M e
      · rw [if_pos hTakes, ih, mem_cover_iff]
        constructor
        · rintro ((hTouches | hMem) | ⟨e', he', hTest, hTouches⟩)
          · exact Or.inr ⟨e, List.mem_cons_self, hTakes.1,
              hTouches⟩
          · exact Or.inl hMem
          · exact Or.inr ⟨e', List.mem_cons_of_mem _ he', hTest,
              hTouches⟩
        · rintro (hMem | ⟨e', he', hTest, hTouches⟩)
          · exact Or.inl (Or.inr hMem)
          · rcases List.mem_cons.mp he' with hEq | he'
            · subst hEq
              exact Or.inl (Or.inl hTouches)
            · exact Or.inr ⟨e', he', hTest, hTouches⟩
      · rw [if_neg hTakes, ih]
        constructor
        · apply Or.imp_right
          rintro ⟨e', he', hRest⟩
          exact ⟨e', List.mem_cons_of_mem _ he', hRest⟩
        · rintro (hMem | ⟨e', he', hTest, hTouches⟩)
          · exact Or.inl hMem
          · rcases List.mem_cons.mp he' with hEq | he'
            · -- An edge that is passed over has both ends covered.
              subst hEq
              have hBoth : c.fst e' ∈ M ∧ c.snd e' ∈ M := by
                by_contra hNot
                exact hTakes ⟨hTest, hNot⟩
              apply Or.inl
              rcases hTouches with hEnd | hEnd
              · rw [hEnd]
                exact hBoth.1
              · rw [hEnd]
                exact hBoth.2
            · exact Or.inr ⟨e', he', hTest, hTouches⟩

/- What is covered are the ends of the chosen edges. -/
theorem mem_covered_iff_kept :
    v ∈ c.covered es M ↔
      v ∈ M ∨ ∃ e ∈ c.kept es M, c.Touches e v := by
  induction es generalizing M with
  | nil => simp [covered, kept]
  | cons e es ih =>
      rw [covered, kept]
      by_cases hTakes : c.Takes M e
      · rw [if_pos hTakes, if_pos hTakes, ih, mem_cover_iff,
          List.exists_mem_cons_iff, or_assoc, or_left_comm]
      · rw [if_neg hTakes, if_neg hTakes, ih]

theorem covered_append :
    c.covered (es ++ es') M =
      c.covered es' (c.covered es M) := by
  induction es generalizing M with
  | nil => rfl
  | cons e es ih =>
      rw [List.cons_append, covered, covered]
      by_cases hTakes : c.Takes M e
      · rw [if_pos hTakes, if_pos hTakes, ih]
      · rw [if_neg hTakes, if_neg hTakes, ih]

------------------------------------------------------------
-- Which Edges Are Chosen
------------------------------------------------------------

theorem kept_sublist : (c.kept es M).Sublist es := by
  induction es generalizing M with
  | nil => exact List.Sublist.slnil
  | cons e es ih =>
      rw [kept]
      by_cases hTakes : c.Takes M e
      · rw [if_pos hTakes]
        exact ih.cons_cons e
      · rw [if_neg hTakes]
        exact ih.cons e

/- A chosen edge passes the test, and it covers something. -/
theorem takes_of_mem_kept
    (hMem : e ∈ c.kept es M) :
    c.Takes M e := by
  induction es generalizing M with
  | nil => cases hMem
  | cons e' es ih =>
      rw [kept] at hMem
      by_cases hTakes : c.Takes M e'
      · rw [if_pos hTakes] at hMem
        rcases List.mem_cons.mp hMem with hEq | hMem
        · rw [hEq]
          exact hTakes
        · have hLater := ih hMem
          refine ⟨hLater.1, fun hBoth => hLater.2 ?_⟩
          exact ⟨mem_cover_iff.mpr (Or.inr hBoth.1),
            mem_cover_iff.mpr (Or.inr hBoth.2)⟩
      · rw [if_neg hTakes] at hMem
        exact ih hMem

theorem kept_append :
    c.kept (es ++ es') M =
      c.kept es M ++ c.kept es' (c.covered es M) := by
  induction es generalizing M with
  | nil => rfl
  | cons e es ih =>
      rw [List.cons_append, kept, kept, covered]
      by_cases hTakes : c.Takes M e
      · rw [if_pos hTakes, if_pos hTakes, if_pos hTakes, ih,
          List.cons_append]
      · rw [if_neg hTakes, if_neg hTakes, if_neg hTakes, ih]

/- The choice depends on the ends of the edges alone. -/
theorem kept_congr
    (hSame :
      ∀ e ∈ es, ∀ v, c.Touches e v → (v ∈ M ↔ v ∈ M')) :
    c.kept es M = c.kept es M' := by
  induction es generalizing M M' with
  | nil => rfl
  | cons e es ih =>
      have hEnds := hSame e List.mem_cons_self
      have hTakes : c.Takes M e ↔ c.Takes M' e := by
        unfold Takes
        rw [hEnds _ (Or.inl rfl), hEnds _ (Or.inr rfl)]
      have hRest :
          ∀ e' ∈ es, ∀ v, c.Touches e' v → (v ∈ M ↔ v ∈ M') :=
        fun e' he' => hSame e' (List.mem_cons_of_mem _ he')
      rw [kept, kept]
      by_cases hNow : c.Takes M e
      · rw [if_pos hNow, if_pos (hTakes.mp hNow)]
        congr 1
        apply ih
        intro e' he' v hTouches
        rw [mem_cover_iff, mem_cover_iff,
          hRest e' he' v hTouches]
      · rw [if_neg hNow, if_neg (fun h => hNow (hTakes.mpr h))]
        exact ih hRest

------------------------------------------------------------
-- Blocks of Edges
------------------------------------------------------------

/- No vertex is an end of edges of both lists. -/
def Apart (c : Cover V E) (es es' : List E) : Prop :=
  ∀ e ∈ es, ∀ e' ∈ es', ∀ v, c.Touches e v → ¬ c.Touches e' v

variable {blocks blocks' : List (List E)}

/- Blocks of edges that are apart do not affect each other. -/
theorem kept_flatten
    (hApart : blocks.Pairwise c.Apart) :
    c.kept blocks.flatten M =
      blocks.flatMap (fun es => c.kept es M) := by
  induction blocks generalizing M with
  | nil => rfl
  | cons es blocks ih =>
      have hSplit := List.pairwise_cons.mp hApart
      rw [List.flatten_cons, kept_append, List.flatMap_cons,
        ← ih hSplit.2]
      congr 1
      apply kept_congr
      intro e' he' v hTouches
      rw [mem_covered_iff]
      constructor
      · rintro (hMem | ⟨e, he, -, hOther⟩)
        · exact hMem
        · rcases List.mem_flatten.mp he' with
            ⟨es', hBlock, hIn⟩
          exact absurd hTouches
            (hSplit.1 es' hBlock e he e' hIn v hOther)
      · exact Or.inl

/- Their order makes no difference to what is chosen. -/
theorem kept_flatten_perm
    (hApart : blocks.Pairwise c.Apart)
    (hPerm : blocks'.Perm blocks) :
    (c.kept blocks'.flatten M).Perm
      (c.kept blocks.flatten M) := by
  have hApart' : blocks'.Pairwise c.Apart := by
    apply hPerm.symm.pairwise hApart
    intro es es' hOne e' he' e he v hTouches hOther
    exact hOne e he e' he' v hOther hTouches
  rw [kept_flatten hApart, kept_flatten hApart']
  exact hPerm.flatMap_right _

/- The order of the edges is nothing to the cover. -/
theorem covered_perm
    (hPerm : es'.Perm es) :
    c.covered es' M = c.covered es M := by
  ext v
  rw [mem_covered_iff, mem_covered_iff]
  constructor
  · apply Or.imp_right
    rintro ⟨e, he, hRest⟩
    exact ⟨e, hPerm.mem_iff.mp he, hRest⟩
  · apply Or.imp_right
    rintro ⟨e, he, hRest⟩
    exact ⟨e, hPerm.mem_iff.mpr he, hRest⟩

------------------------------------------------------------
-- Pairs of a List
------------------------------------------------------------

section Pairs

variable {A : Type} {a b : A} {xs : List A}

/- The pairs of a list, each with its earlier element first. -/
def pairs : List A → List (A × A)
| [] => []
| x :: xs => xs.map (fun y => (x, y)) ++ pairs xs

theorem pairs_eq_nil
    (hShort : xs.length < 2) :
    pairs xs = [] := by
  cases xs with
  | nil => rfl
  | cons x ys =>
      have hNil : ys = [] := by
        apply List.length_eq_zero_iff.mp
        rw [List.length_cons] at hShort
        omega
      rw [hNil]
      rfl

theorem mem_pairs_iff :
    (a, b) ∈ pairs xs ↔ [a, b].Sublist xs := by
  induction xs with
  | nil => simp [pairs]
  | cons x xs ih =>
      rw [pairs, List.mem_append, ih, List.cons_sublist_cons',
        List.singleton_sublist, or_comm]
      simp [eq_comm, and_comm]

/- Two elements of a list come in one order or the other. -/
theorem pairs_total
    (ha : a ∈ xs)
    (hb : b ∈ xs)
    (hNe : a ≠ b) :
    [a, b].Sublist xs ∨ [b, a].Sublist xs := by
  induction xs with
  | nil => cases ha
  | cons x xs ih =>
      rcases List.mem_cons.mp ha with hFirst | haRest
      · rcases List.mem_cons.mp hb with hOther | hbRest
        · exact absurd (hFirst.trans hOther.symm) hNe
        · apply Or.inl
          rw [hFirst]
          exact (List.singleton_sublist.mpr hbRest).cons_cons x
      · rcases List.mem_cons.mp hb with hFirst | hbRest
        · apply Or.inr
          rw [hFirst]
          exact (List.singleton_sublist.mpr haRest).cons_cons x
        · apply (ih haRest hbRest).imp
          · exact List.Sublist.cons x
          · exact List.Sublist.cons x

/- The pairs of a selection are those of selected elements. -/
theorem pair_sublist_filter_iff
    {p : A → Bool} :
    [a, b].Sublist (xs.filter p) ↔
      [a, b].Sublist xs ∧ p a = true ∧ p b = true := by
  constructor
  · intro h
    have hMem : ∀ x ∈ [a, b], p x = true :=
      fun x hx => List.of_mem_filter (h.subset hx)
    exact ⟨h.trans List.filter_sublist,
      hMem a (by simp), hMem b (by simp)⟩
  · rintro ⟨h, ha, hb⟩
    have hFilter := h.filter p
    rwa [List.filter_cons_of_pos ha,
      List.filter_cons_of_pos hb, List.filter_nil] at hFilter

/- In a list without repetition no two of them are one. -/
theorem nodup_pairs
    (hNodup : xs.Nodup) :
    ((pairs xs).map (fun p => s(p.1, p.2))).Nodup := by
  induction xs with
  | nil => exact List.nodup_nil
  | cons x xs ih =>
      have hSplit := List.nodup_cons.mp hNodup
      rw [pairs, List.map_append, List.map_map]
      apply List.nodup_append.mpr
      refine ⟨?_, ih hSplit.2, ?_⟩
      · apply hSplit.2.map
        intro y z hEq
        exact Sym2.congr_right.mp hEq
      · -- A later pair does not contain the head of the list.
        rintro q hq r hr hEq
        rcases List.mem_map.mp hq with ⟨y, -, hHead⟩
        rcases List.mem_map.mp hr with ⟨⟨a, b⟩, hPair, hTail⟩
        have hSub := mem_pairs_iff.mp hPair
        have hx : x ∈ s(a, b) := by
          have hIn : x ∈ s(x, y) := Sym2.mem_mk_left x y
          rw [← hTail] at hEq
          rw [← hEq, ← hHead]
          exact hIn
        apply hSplit.1
        apply hSub.subset
        rcases Sym2.mem_iff.mp hx with hOne | hOne
        · rw [hOne]
          simp
        · rw [hOne]
          simp

end Pairs

end Cover
