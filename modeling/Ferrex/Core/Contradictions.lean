import Mathlib.Data.Finset.Card
import Ferrex.Core.Reflect

/-
  What the detection of contradictions reports.  A fact that
  contradicts another one of its subject is in some pair,
  and no order of the groups changes the pairs.  Across
  aliases a fact may be left out, and pairs come twice.

  Main declarations:
    * `Detection.run`, `foldl_findPairs`
    * `Settled`, `mem_matchedIds_iff`
    * `mem_aliasReports_iff`
    * `contradictions_order_independent`
    * `contradictions_covered_iff`
    * `contradictions_once_iff`
-/

------------------------------------------------------------
-- Loops Over Pairs
------------------------------------------------------------

namespace Ferrex

namespace Core

open Store

namespace Reflect

section Loops

variable {classify : Classify} {d : Detection}
variable {ps qs : List (Memory × Memory)}

/- The choice that the loops over the pairs make. -/
def comparison
    (classify : Classify) : Cover String (Memory × Memory) where
  fst p := p.1.id
  snd p := p.2.id
  test p :=
    decide (effectiveObject p.1 ≠ effectiveObject p.2) &&
      (classify p.1 p.2).isSome

/-
  The pair as it is reported, if the classifier takes it.
-/
def report
    (classify : Classify)
    (p : Memory × Memory) : Option ContradictionPair :=
  (classify p.1 p.2).map (fun c => ⟨p.1, p.2, c.1, c.2⟩)

/- The loops over a list of pairs, at once. -/
def Detection.run
    (classify : Classify)
    (d : Detection)
    (ps : List (Memory × Memory)) : Detection where
  contradictions :=
    d.contradictions ++
      ((comparison classify).kept ps d.matchedIds).filterMap
        (report classify)
  matchedIds := (comparison classify).covered ps d.matchedIds

/-
  A pair is taken if the objects differ and the classifier
  agrees.
-/
theorem comparison_test_iff
    {a b : Memory} :
    (comparison classify).test (a, b) = true ↔
      effectiveObject a ≠ effectiveObject b ∧
        (classify a b).isSome = true := by
  simp [comparison]

/- A pair that is taken covers its two ids. -/
@[simp] theorem comparison_cover
    {M : Finset String} {a b : Memory} :
    (comparison classify).cover M (a, b) =
      insert b.id (insert a.id M) :=
  rfl

/- No pairs, no change. -/
theorem Detection.run_nil : d.run classify [] = d := by
  simp [Detection.run, Cover.kept, Cover.covered]

/-
  One list of pairs after another is their concatenation.
-/
theorem Detection.run_append :
    (d.run classify ps).run classify qs =
      d.run classify (ps ++ qs) := by
  unfold Detection.run
  rw [Cover.kept_append, Cover.covered_append,
    List.filterMap_append, List.append_assoc]

/- One step of the loops. -/
theorem comparePair_eq
    (a b : Memory) :
    comparePair classify d a b = d.run classify [(a, b)] := by
  unfold comparePair Detection.run
  by_cases hBoth : a.id ∈ d.matchedIds ∧ b.id ∈ d.matchedIds
  · have hSkip :
        ¬ (comparison classify).Takes d.matchedIds (a, b) :=
      fun h => h.2 hBoth
    rw [if_pos hBoth]
    simp [Cover.kept, Cover.covered, hSkip]
  · rw [if_neg hBoth]
    by_cases hObject : effectiveObject a = effectiveObject b
    · have hSkip :
          ¬ (comparison classify).Takes d.matchedIds (a, b) :=
        fun h => (comparison_test_iff.mp h.1).1 hObject
      rw [if_pos hObject]
      simp [Cover.kept, Cover.covered, hSkip]
    · rw [if_neg hObject]
      cases hClass : classify a b with
      | none =>
          have hSkip :
              ¬ (comparison classify).Takes d.matchedIds
                (a, b) := by
            intro h
            have hSome := (comparison_test_iff.mp h.1).2
            rw [hClass] at hSome
            cases hSome
          simp [Cover.kept, Cover.covered, hSkip]
      | some c =>
          have hTake :
              (comparison classify).Takes d.matchedIds
                (a, b) := by
            refine ⟨comparison_test_iff.mpr ⟨hObject, ?_⟩, hBoth⟩
            rw [hClass]
            rfl
          simp [Cover.kept, Cover.covered, hTake, report, hClass]

/- The loop over the pairs is a run of the detection. -/
theorem foldl_comparePair :
    ps.foldl (fun d p => comparePair classify d p.1 p.2) d =
      d.run classify ps := by
  induction ps generalizing d with
  | nil => exact Detection.run_nil.symm
  | cons p ps ih =>
      rw [List.foldl_cons, ih, comparePair_eq,
        Detection.run_append]
      rfl

/- Comparing all pairs of a group is a run over them. -/
theorem comparePairs_eq
    {mems : List Memory} :
    comparePairs classify mems d =
      d.run classify (Cover.pairs mems) := by
  induction mems generalizing d with
  | nil => exact Detection.run_nil.symm
  | cons a mems ih =>
      have hHead :
          mems.foldl (fun d b => comparePair classify d a b) d =
            d.run classify (mems.map (fun b => (a, b))) := by
        rw [← foldl_comparePair, List.foldl_map]
      rw [comparePairs, ih, hHead, Cover.pairs,
        Detection.run_append]

/-
  Which is what the function of the source does with a
  group.
-/
theorem findPairs_eq
    {mems : List Memory} :
    findPairsWithDifferentObjects classify mems d =
      d.run classify (Cover.pairs mems) := by
  unfold findPairsWithDifferentObjects
  by_cases hShort : mems.length < 2
  · rw [if_pos hShort, Cover.pairs_eq_nil hShort,
      Detection.run_nil]
  · rw [if_neg hShort, comparePairs_eq]

/- The pairs of each group. -/
def blocks
    {K : Type}
    (groups : List (K × List Memory)) :
    List (List (Memory × Memory)) :=
  groups.map (fun group => Cover.pairs group.2)

/-
  And the loop over groups runs through all of their pairs.
-/
theorem foldl_findPairs
    {K : Type} {groups : List (K × List Memory)} :
    groups.foldl
        (fun d group =>
          findPairsWithDifferentObjects classify group.2 d) d =
      d.run classify (blocks groups).flatten := by
  induction groups generalizing d with
  | nil => exact Detection.run_nil.symm
  | cons group groups ih =>
      rw [List.foldl_cons, ih, findPairs_eq,
        Detection.run_append]
      rfl

variable {v : String} {r : ContradictionPair}
variable {p : Memory × Memory} {M : Finset String}

/-
  A report comes from a pair that was still free to be
  taken.
-/
theorem mem_run_iff :
    r ∈ (d.run classify ps).contradictions ↔
      r ∈ d.contradictions ∨
        ∃ p ∈ (comparison classify).kept ps d.matchedIds,
          report classify p = some r := by
  unfold Detection.run
  rw [List.mem_append, List.mem_filterMap]

/- A report names the two memories of its pair. -/
theorem ends_of_report
    (hReport : report classify p = some r) :
    r.a = p.1 ∧ r.b = p.2 := by
  rcases Option.map_eq_some_iff.mp hReport with ⟨c, -, hEq⟩
  rw [← hEq]
  exact ⟨rfl, rfl⟩

/- A pair that is kept is reported. -/
theorem report_of_mem_kept
    (hKept : p ∈ (comparison classify).kept ps M) :
    ∃ r, report classify p = some r := by
  have hTakes := Cover.takes_of_mem_kept hKept
  have hSome := (comparison_test_iff.mp hTakes.1).2
  apply Option.isSome_iff_exists.mp
  rw [report, Option.isSome_map]
  exact hSome

/- The ids of the reports are those that are matched. -/
theorem matchedIds_run
    (hStart :
      v ∈ d.matchedIds ↔
        ∃ r ∈ d.contradictions, v = r.a.id ∨ v = r.b.id) :
    v ∈ (d.run classify ps).matchedIds ↔
      ∃ r ∈ (d.run classify ps).contradictions,
        v = r.a.id ∨ v = r.b.id := by
  have hCovered :
      v ∈ (d.run classify ps).matchedIds ↔
        v ∈ d.matchedIds ∨
          ∃ p ∈ (comparison classify).kept ps d.matchedIds,
            v = p.1.id ∨ v = p.2.id :=
    Cover.mem_covered_iff_kept
  rw [hCovered, hStart]
  constructor
  · rintro (⟨r, hr, hEnd⟩ | ⟨p, hp, hEnd⟩)
    · exact ⟨r, mem_run_iff.mpr (Or.inl hr), hEnd⟩
    · rcases report_of_mem_kept hp with ⟨r, hReport⟩
      have hEnds := ends_of_report hReport
      refine ⟨r, mem_run_iff.mpr (Or.inr ⟨p, hp, hReport⟩), ?_⟩
      rw [hEnds.1, hEnds.2]
      exact hEnd
  · rintro ⟨r, hr, hEnd⟩
    rcases mem_run_iff.mp hr with hr | ⟨p, hp, hReport⟩
    · exact Or.inl ⟨r, hr, hEnd⟩
    · have hEnds := ends_of_report hReport
      rw [hEnds.1, hEnds.2] at hEnd
      exact Or.inr ⟨p, hp, hEnd⟩

end Loops

------------------------------------------------------------
-- Groups of Facts
------------------------------------------------------------

section Blocks

variable {K : Type} [DecidableEq K]
variable {key : Memory → Option K} {xs : List Memory}
variable {classify : Classify} {a b : Memory}

/- The ids of a list of memories are distinct. -/
def DistinctIds (xs : List Memory) : Prop :=
  (xs.map (fun m => m.id)).Nodup

/- An id names one memory. -/
theorem DistinctIds.eq
    (hIds : DistinctIds xs)
    (ha : a ∈ xs)
    (hb : b ∈ xs)
    (hId : a.id = b.id) :
    a = b :=
  List.inj_on_of_nodup_map hIds ha hb hId

/- With distinct ids no memory is listed twice. -/
theorem DistinctIds.nodup
    (hIds : DistinctIds xs) :
    xs.Nodup :=
  hIds.of_map

/- The pairs of the groups: those of facts with one key. -/
theorem mem_blocks_iff :
    (a, b) ∈ (blocks (Groups.collect key xs)).flatten ↔
      [a, b].Sublist xs ∧
        ∃ k, key a = some k ∧ key b = some k := by
  unfold blocks
  rw [List.mem_flatten]
  constructor
  · rintro ⟨ps, hBlock, hPair⟩
    rcases List.mem_map.mp hBlock with ⟨⟨k, mems⟩, hGroup, hEq⟩
    rw [← hEq, Cover.mem_pairs_iff,
      (Groups.mem_collect_iff.mp hGroup).1,
      Cover.pair_sublist_filter_iff, decide_eq_true_iff,
      decide_eq_true_iff] at hPair
    exact ⟨hPair.1, k, hPair.2⟩
  · rintro ⟨hSub, k, ha, hb⟩
    have hPair :
        [a, b].Sublist
          (xs.filter (fun m => key m = some k)) := by
      rw [Cover.pair_sublist_filter_iff, decide_eq_true_iff,
        decide_eq_true_iff]
      exact ⟨hSub, ha, hb⟩
    refine ⟨_, List.mem_map_of_mem
      (Groups.mem_collect_iff.mpr ⟨rfl, ?_⟩),
      Cover.mem_pairs_iff.mpr hPair⟩
    exact List.ne_nil_of_mem (hPair.subset List.mem_cons_self)

/- Facts of different groups are different. -/
theorem apart_blocks
    (hIds : DistinctIds xs) :
    (blocks (Groups.collect key xs)).Pairwise
      (comparison classify).Apart := by
  have hKeys :
      (Groups.collect key xs).Pairwise
        (fun g g' => g.1 ≠ g'.1) :=
    List.pairwise_map.mp Groups.distinct_collect
  have hMember :
      ∀ g ∈ Groups.collect key xs, ∀ p ∈ Cover.pairs g.2,
        ∀ v, (comparison classify).Touches p v →
          ∃ m ∈ xs, key m = some g.1 ∧ m.id = v := by
    rintro ⟨k, mems⟩ hGroup ⟨a, b⟩ hPair v hTouches
    have hSub := Cover.mem_pairs_iff.mp hPair
    rw [(Groups.mem_collect_iff.mp hGroup).1] at hSub
    have hIn : ∀ m ∈ [a, b], m ∈ xs ∧ key m = some k := by
      intro m hm
      have hFilter := List.mem_filter.mp (hSub.subset hm)
      exact ⟨hFilter.1, of_decide_eq_true hFilter.2⟩
    rcases hTouches with hEnd | hEnd
    · exact ⟨a, (hIn a (by simp)).1, (hIn a (by simp)).2,
        hEnd.symm⟩
    · exact ⟨b, (hIn b (by simp)).1, (hIn b (by simp)).2,
        hEnd.symm⟩
  apply List.pairwise_map.mpr
  apply hKeys.imp_of_mem
  intro g g' hg hg' hNe p hp p' hp' v hTouches hTouches'
  rcases hMember g hg p hp v hTouches with ⟨m, hm, hKey, hId⟩
  rcases hMember g' hg' p' hp' v hTouches' with
    ⟨m', hm', hKey', hId'⟩
  have hSame := hIds.eq hm hm' (hId.trans hId'.symm)
  apply hNe
  rw [hSame, hKey'] at hKey
  exact (Option.some.inj hKey).symm

/- No two pairs of the groups are of the same facts. -/
theorem nodup_blocks
    (hIds : DistinctIds xs) :
    ((blocks (Groups.collect key xs)).flatten.map
      (fun p => s(p.1, p.2))).Nodup := by
  have hSub :
      ∀ p ∈ (blocks (Groups.collect key xs)).flatten,
        p ∈ Cover.pairs xs := by
    rintro ⟨a, b⟩ hMem
    exact Cover.mem_pairs_iff.mpr (mem_blocks_iff.mp hMem).1
  have hInj :
      ∀ p ∈ Cover.pairs xs, ∀ q ∈ Cover.pairs xs,
        s(p.1, p.2) = s(q.1, q.2) → p = q :=
    fun p hp q hq hEq =>
      List.inj_on_of_nodup_map (Cover.nodup_pairs hIds.nodup)
        hp hq hEq
  apply List.Nodup.map_on
  · intro p hp q hq hEq
    exact hInj p (hSub p hp) q (hSub q hq) hEq
  · apply List.nodup_flatten.mpr
    constructor
    · intro ps hBlock
      rcases List.mem_map.mp hBlock with
        ⟨⟨k, mems⟩, hGroup, hEq⟩
      rw [← hEq, (Groups.mem_collect_iff.mp hGroup).1]
      exact (Cover.nodup_pairs (hIds.nodup.filter _)).of_map
    · have hAll :
          (blocks (Groups.collect key xs)).Pairwise
            (comparison classifyExact).Apart :=
        apart_blocks hIds
      apply hAll.imp
      intro ps qs hApart p hp hq
      exact hApart p hp p hq p.1.id (Or.inl rfl) (Or.inl rfl)

end Blocks

------------------------------------------------------------
-- One Stage
------------------------------------------------------------

section Stage

variable {K : Type} [DecidableEq K]
variable {key : Memory → Option K} {xs : List Memory}
variable {groups groups' : List (K × List Memory)}
variable {classify : Classify} {d d' : Detection}

/- Two facts of one group that are classified. -/
def StagePair
    (key : Memory → Option K)
    (classify : Classify)
    (xs : List Memory)
    (a b : Memory) : Prop :=
  [a, b].Sublist xs ∧
    (∃ k, key a = some k ∧ key b = some k) ∧
    effectiveObject a ≠ effectiveObject b ∧
    (classify a b).isSome = true

/- In whatever order, the ids of its pairs are matched. -/
theorem mem_matchedIds_run_iff
    {v : String}
    (hGroups : groups.Perm (Groups.collect key xs)) :
    v ∈ (d.run classify (blocks groups).flatten).matchedIds ↔
      v ∈ d.matchedIds ∨
        ∃ a b, StagePair key classify xs a b ∧
          (v = a.id ∨ v = b.id) := by
  have hBlocks :
      (blocks groups).flatten.Perm
        (blocks (Groups.collect key xs)).flatten :=
    (hGroups.map _).flatten
  unfold Detection.run
  rw [Cover.covered_perm hBlocks, Cover.mem_covered_iff]
  constructor
  · apply Or.imp_right
    rintro ⟨⟨a, b⟩, hMem, hTest, hTouches⟩
    have hGroup := mem_blocks_iff.mp hMem
    have hPass := comparison_test_iff.mp hTest
    exact ⟨a, b, ⟨hGroup.1, hGroup.2, hPass.1, hPass.2⟩,
      hTouches⟩
  · apply Or.imp_right
    rintro ⟨a, b, ⟨hSub, hKey, hObject, hClass⟩, hTouches⟩
    exact ⟨(a, b), mem_blocks_iff.mpr ⟨hSub, hKey⟩,
      comparison_test_iff.mpr ⟨hObject, hClass⟩, hTouches⟩

/- The order of the groups is no part of the outcome. -/
theorem run_perm
    (hIds : DistinctIds xs)
    (hGroups : groups.Perm (Groups.collect key xs))
    (hGroups' : groups'.Perm (Groups.collect key xs))
    (hMatched : d.matchedIds = d'.matchedIds)
    (hPerm : d.contradictions.Perm d'.contradictions) :
    (d.run classify
        (blocks groups).flatten).contradictions.Perm
      (d'.run classify
        (blocks groups').flatten).contradictions ∧
      (d.run classify (blocks groups).flatten).matchedIds =
        (d'.run classify
          (blocks groups').flatten).matchedIds := by
  constructor
  · have hApart :
        (blocks (Groups.collect key xs)).Pairwise
          (comparison classify).Apart :=
      apart_blocks hIds
    have hKept :=
      Cover.kept_flatten_perm (M := d.matchedIds) hApart
        (hGroups.map (fun group => Cover.pairs group.2))
    have hKept' :=
      Cover.kept_flatten_perm (M := d.matchedIds) hApart
        (hGroups'.map (fun group => Cover.pairs group.2))
    unfold Detection.run
    rw [← hMatched]
    exact hPerm.append ((hKept.trans hKept'.symm).filterMap _)
  · ext v
    rw [mem_matchedIds_run_iff hGroups,
      mem_matchedIds_run_iff hGroups', hMatched]

end Stage

------------------------------------------------------------
-- The Alias Stage
------------------------------------------------------------

section Aliases

variable {Vec F : Type} {env : Env Vec F} {orders : Orders}
variable {xs : List Memory} {a b : Memory}
variable {entityAliases : List (String × List String)}
variable {M : Finset String} {r : ContradictionPair}

/- The subject of one fact has that of another as an alias. -/
def AliasLink
    (env : Env Vec F)
    (entityAliases : List (String × List String))
    (a b : Memory) : Prop :=
  ∃ subj name, subjectKey env a = some subj ∧
    name ∈ (entityAliases.lookup subj).getD [] ∧
    env.toLowercase name ≠ subj ∧
    subjectKey env b = some (env.toLowercase name)

/- Decided by trying the names of the list. -/
instance
    (env : Env Vec F)
    (entityAliases : List (String × List String))
    (a b : Memory) :
    Decidable (AliasLink env entityAliases a b) :=
  decidable_of_iff
    (∃ subj ∈ (subjectKey env a).toList,
      ∃ name ∈ (entityAliases.lookup subj).getD [],
        env.toLowercase name ≠ subj ∧
          subjectKey env b = some (env.toLowercase name))
    (by simp [AliasLink])

/- The reports of the loops over the aliases. -/
def aliasReports
    (env : Env Vec F)
    (orders : Orders)
    (xs : List Memory)
    (entityAliases : List (String × List String))
    (M : Finset String) : List ContradictionPair :=
  (orders.bySubject.order
    (Groups.collect (subjectKey env) xs)).flatMap
      (aliasPairs env (Groups.collect (subjectKey env) xs)
        entityAliases M)

/-
  A pair of the last stage: free ids, one predicate, two
  objects.
-/
theorem aliasPair_eq_some_iff :
    aliasPair M a b = some r ↔
      a.id ∉ M ∧ b.id ∉ M ∧ b.id ≠ a.id ∧
        effectivePredicate a = effectivePredicate b ∧
        effectiveObject a ≠ effectiveObject b ∧
        r = ⟨a, b, .similarSubject, 1⟩ := by
  unfold aliasPair
  grind

/-
  The memories whose subject is another name of the same
  entity.
-/
theorem mem_aliasMems_iff
    {subj : String} {aliases : List String} :
    b ∈ aliasMems env (Groups.collect (subjectKey env) xs) subj
        aliases ↔
      b ∈ xs ∧ ∃ name ∈ aliases, env.toLowercase name ≠ subj ∧
        subjectKey env b = some (env.toLowercase name) := by
  unfold aliasMems
  rw [List.mem_flatten]
  constructor
  · rintro ⟨mems, hMems, hMem⟩
    rcases List.mem_filterMap.mp hMems with ⟨name, hName, hLookup⟩
    rw [List.mem_filter, decide_eq_true_iff] at hName
    rw [← Groups.distinct_collect.mem_iff,
      Groups.mem_collect_iff] at hLookup
    rw [hLookup.1, List.mem_filter, decide_eq_true_iff] at hMem
    exact ⟨hMem.1, name, hName.1, hName.2, hMem.2⟩
  · rintro ⟨hMem, name, hName, hOther, hKey⟩
    have hIn :
        b ∈ xs.filter
          (fun m =>
            subjectKey env m = some (env.toLowercase name)) :=
      List.mem_filter.mpr ⟨hMem, decide_eq_true hKey⟩
    refine ⟨_, List.mem_filterMap.mpr ⟨name, ?_, ?_⟩, hIn⟩
    · rw [List.mem_filter, decide_eq_true_iff]
      exact ⟨hName, hOther⟩
    · rw [← Groups.distinct_collect.mem_iff,
        Groups.mem_collect_iff]
      exact ⟨rfl, List.ne_nil_of_mem hIn⟩

/- Linked facts are reported unless one of them is matched. -/
theorem mem_aliasReports_iff :
    r ∈ aliasReports env orders xs entityAliases M ↔
      ∃ a ∈ xs, ∃ b ∈ xs, AliasLink env entityAliases a b ∧
        aliasPair M a b = some r := by
  unfold aliasReports
  rw [List.mem_flatMap]
  constructor
  · rintro ⟨⟨subj, mems⟩, hGroup, hReport⟩
    rw [Iteration.mem_order_iff, Groups.mem_collect_iff]
      at hGroup
    unfold aliasPairs at hReport
    cases hLookup : entityAliases.lookup subj with
    | none => simp [hLookup] at hReport
    | some aliases =>
        simp only [hLookup] at hReport
        rcases List.mem_flatMap.mp hReport with ⟨a, ha, hOthers⟩
        rcases List.mem_filterMap.mp hOthers with ⟨b, hb, hPair⟩
        rw [hGroup.1, List.mem_filter, decide_eq_true_iff] at ha
        rw [mem_aliasMems_iff] at hb
        rcases hb with ⟨hb, name, hName, hOther, hKey⟩
        refine ⟨a, ha.1, b, hb, ⟨subj, name, ha.2, ?_, hOther,
          hKey⟩, hPair⟩
        rw [hLookup]
        exact hName
  · rintro ⟨a, ha, b, hb, ⟨subj, name, hSubj, hName, hOther, hKey⟩,
      hPair⟩
    have hIn :
        a ∈ xs.filter
          (fun m => subjectKey env m = some subj) :=
      List.mem_filter.mpr ⟨ha, decide_eq_true hSubj⟩
    refine ⟨(subj, xs.filter
      (fun m => subjectKey env m = some subj)), ?_, ?_⟩
    · rw [Iteration.mem_order_iff, Groups.mem_collect_iff]
      exact ⟨rfl, List.ne_nil_of_mem hIn⟩
    · unfold aliasPairs
      cases hLookup : entityAliases.lookup subj with
      | none => simp [hLookup] at hName
      | some aliases =>
          rw [hLookup] at hName
          apply List.mem_flatMap.mpr
          refine ⟨a, hIn, List.mem_filterMap.mpr ⟨b, ?_, hPair⟩⟩
          rw [mem_aliasMems_iff]
          exact ⟨hb, name, hName, hOther, hKey⟩

end Aliases

------------------------------------------------------------
-- Facts That Contradict Each Other
------------------------------------------------------------

section Facts

variable {Vec F : Type}

/- The subjects are one up to case. -/
def SameSubject
    (env : Env Vec F)
    (a b : Memory) : Prop :=
  ∃ subj, subjectKey env a = some subj ∧
    subjectKey env b = some subj

/- One subject and one predicate, as the exact groups have it. -/
def SameKey
    (env : Env Vec F)
    (a b : Memory) : Prop :=
  ∃ key, exactKey env a = some key ∧ exactKey env b = some key

/- The predicates are similar, the earlier to the later one. -/
def Similar
    (env : Env Vec F)
    (xs : List Memory)
    (a b : Memory) : Prop :=
  ([a, b].Sublist xs ∧
    fuzzyPredicateThreshold <
      env.jaroWinkler (effectivePredicate a)
        (effectivePredicate b)) ∨
  ([b, a].Sublist xs ∧
    fuzzyPredicateThreshold <
      env.jaroWinkler (effectivePredicate b)
        (effectivePredicate a))

/- Aliases link the subjects, and the predicates are equal. -/
def AliasContradicts
    (env : Env Vec F)
    (entityAliases : List (String × List String))
    (a b : Memory) : Prop :=
  effectiveObject a ≠ effectiveObject b ∧
    effectivePredicate a = effectivePredicate b ∧
    (AliasLink env entityAliases a b ∨
      AliasLink env entityAliases b a)

/- Decided by its parts. -/
instance
    (env : Env Vec F)
    (entityAliases : List (String × List String))
    (a b : Memory) :
    Decidable (AliasContradicts env entityAliases a b) :=
  inferInstanceAs (Decidable (_ ∧ _ ∧ (_ ∨ _)))

/- By one of the three stages. -/
def Contradicts
    (env : Env Vec F)
    (xs : List Memory)
    (entityAliases : List (String × List String))
    (a b : Memory) : Prop :=
  (effectiveObject a ≠ effectiveObject b ∧
    SameSubject env a b ∧
    (effectivePredicate a = effectivePredicate b ∨
      SameKey env a b ∨ Similar env xs a b)) ∨
  AliasContradicts env entityAliases a b

/-
  The fact has a different object than another one of its
  exact group, or of its subject with a similar predicate.
-/
def Settled
    (env : Env Vec F)
    (xs : List Memory)
    (a : Memory) : Prop :=
  ∃ b ∈ xs, effectiveObject a ≠ effectiveObject b ∧
    (SameKey env a b ∨
      (SameSubject env a b ∧
        effectivePredicate a ≠ effectivePredicate b ∧
        Similar env xs a b))

variable {env : Env Vec F} {orders orders' : Orders}
variable {xs : List Memory} {a b : Memory}
variable {entityAliases : List (String × List String)}

/- The subject is shared both ways. -/
theorem SameSubject.symm
    (h : SameSubject env a b) :
    SameSubject env b a := by
  rcases h with ⟨subj, ha, hb⟩
  exact ⟨subj, hb, ha⟩

/- Sharing a key is symmetric. -/
theorem SameKey.symm
    (h : SameKey env a b) :
    SameKey env b a := by
  rcases h with ⟨key, ha, hb⟩
  exact ⟨key, hb, ha⟩

/- Contradicting by an alias is symmetric. -/
theorem AliasContradicts.symm
    (h : AliasContradicts env entityAliases a b) :
    AliasContradicts env entityAliases b a :=
  ⟨h.1.symm, h.2.1.symm, h.2.2.symm⟩

/-
  The fuzzy classifier asks for different predicates that
  resemble each other.
-/
theorem classifyFuzzy_isSome_iff :
    (classifyFuzzy env a b).isSome = true ↔
      effectivePredicate a ≠ effectivePredicate b ∧
        fuzzyPredicateThreshold <
          env.jaroWinkler (effectivePredicate a)
            (effectivePredicate b) := by
  unfold classifyFuzzy
  by_cases hSame : effectivePredicate a = effectivePredicate b
  · simp [hSame]
  · rw [if_neg hSame]
    by_cases hSim :
        fuzzyPredicateThreshold <
          env.jaroWinkler (effectivePredicate a)
            (effectivePredicate b)
    · simp [hSame, hSim]
    · simp [hSim]

/- The first stage is a run over its groups. -/
theorem exactDetection_eq :
    exactDetection env orders xs =
      (⟨[], ∅⟩ : Detection).run classifyExact
        (blocks (orders.grouped.order
          (Groups.collect (exactKey env) xs))).flatten :=
  foldl_findPairs

/- The second goes on from there. -/
theorem fuzzyDetection_eq :
    fuzzyDetection env orders xs =
      (exactDetection env orders xs).run (classifyFuzzy env)
        (blocks (orders.bySubject.order
          (Groups.collect (subjectKey env) xs))).flatten :=
  foldl_findPairs

/- The third stage adds to the reports of the two. -/
theorem detectContradictions_eq :
    detectContradictions env orders xs entityAliases =
      (fuzzyDetection env orders xs).contradictions ++
        aliasReports env orders xs entityAliases
          (fuzzyDetection env orders xs).matchedIds :=
  rfl

/-
  Among distinct ids, to have an end's id is to be that end.
-/
theorem DistinctIds.mem_ends_iff
    {c d : Memory}
    (hIds : DistinctIds xs)
    (ha : a ∈ xs)
    (hSub : [c, d].Sublist xs) :
    (a.id = c.id ∨ a.id = d.id) ↔ (a = c ∨ a = d) := by
  have hc : c ∈ xs := hSub.subset (by simp)
  have hd : d ∈ xs := hSub.subset (by simp)
  constructor
  · exact Or.imp (hIds.eq ha hc) (hIds.eq ha hd)
  · exact Or.imp (congrArg (fun m : Memory => m.id))
      (congrArg (fun m : Memory => m.id))

/- The pairs that one fact is an end of. -/
theorem exists_stagePair_iff
    {K : Type} {key : Memory → Option K} {classify : Classify}
    (hIds : DistinctIds xs)
    (ha : a ∈ xs) :
    (∃ c d, StagePair key classify xs c d ∧
        (a.id = c.id ∨ a.id = d.id)) ↔
      ∃ b ∈ xs, effectiveObject a ≠ effectiveObject b ∧
        (∃ k, key a = some k ∧ key b = some k) ∧
        (([a, b].Sublist xs ∧ (classify a b).isSome = true) ∨
          ([b, a].Sublist xs ∧
            (classify b a).isSome = true)) := by
  constructor
  · rintro ⟨c, d, ⟨hSub, ⟨k, hc, hd⟩, hObject, hClass⟩, hEnd⟩
    rw [hIds.mem_ends_iff ha hSub] at hEnd
    rcases hEnd with hEq | hEq
    · subst hEq
      exact ⟨d, hSub.subset (by simp), hObject, ⟨k, hc, hd⟩,
        Or.inl ⟨hSub, hClass⟩⟩
    · subst hEq
      exact ⟨c, hSub.subset (by simp), hObject.symm,
        ⟨k, hd, hc⟩, Or.inr ⟨hSub, hClass⟩⟩
  · rintro ⟨b, -, hObject, ⟨k, hka, hkb⟩, hPair⟩
    rcases hPair with ⟨hSub, hClass⟩ | ⟨hSub, hClass⟩
    · exact ⟨a, b, ⟨hSub, ⟨k, hka, hkb⟩, hObject, hClass⟩,
        Or.inl rfl⟩
    · exact ⟨b, a, ⟨hSub, ⟨k, hkb, hka⟩, hObject.symm, hClass⟩,
        Or.inr rfl⟩

/- The first two stages match the facts that are settled. -/
theorem mem_matchedIds_iff
    (hIds : DistinctIds xs)
    (ha : a ∈ xs) :
    a.id ∈ (fuzzyDetection env orders xs).matchedIds ↔
      Settled env xs a := by
  rw [fuzzyDetection_eq,
    mem_matchedIds_run_iff (orders.bySubject.perm _),
    exactDetection_eq,
    mem_matchedIds_run_iff (orders.grouped.perm _),
    exists_stagePair_iff hIds ha, exists_stagePair_iff hIds ha]
  simp only [Finset.notMem_empty, false_or,
    classifyFuzzy_isSome_iff]
  constructor
  · rintro (⟨b, hb, hObject, hKey, -⟩ |
      ⟨b, hb, hObject, hSubj, hPair⟩)
    · exact ⟨b, hb, hObject, Or.inl hKey⟩
    · refine ⟨b, hb, hObject, Or.inr ⟨hSubj, ?_, ?_⟩⟩
      · rcases hPair with ⟨-, hNe, -⟩ | ⟨-, hNe, -⟩
        · exact hNe
        · exact hNe.symm
      · apply hPair.imp
        · exact fun h => ⟨h.1, h.2.2⟩
        · exact fun h => ⟨h.1, h.2.2⟩
  · rintro ⟨b, hb, hObject, hKey | ⟨hSubj, hNe, hPair⟩⟩
    · refine Or.inl ⟨b, hb, hObject, hKey, ?_⟩
      have hDiffer : a ≠ b := fun h => hObject (by rw [h])
      apply (Cover.pairs_total ha hb hDiffer).imp
      · exact fun h => ⟨h, rfl⟩
      · exact fun h => ⟨h, rfl⟩
    · refine Or.inr ⟨b, hb, hObject, hSubj, ?_⟩
      apply hPair.imp
      · exact fun h => ⟨h.1, hNe, h.2⟩
      · exact fun h => ⟨h.1, hNe.symm, h.2⟩

end Facts

------------------------------------------------------------
-- Facts to Run
------------------------------------------------------------

/- A memory of what somebody likes. -/
private def likes (id subject object : String) : Memory where
  id := id
  «namespace» := "main"
  memoryType := .semantic
  content := none
  subject := some subject
  predicate := some "likes"
  object := some object
  confidence := 1
  source := none
  context := none
  createdAt := 0
  updatedAt := 0
  tValid := none
  tInvalid := none
  lastAccessed := 0
  lastValidated := none
  accessCount := 0
  normalizedPredicate := some "likes"
  entities := []

/- Two facts about one person, and one under an alias. -/
private def tastes : List Memory :=
  [likes "m1" "robert" "tea", likes "m2" "robert" "coffee",
    likes "m3" "bob" "milk"]

/- A fact about Robert, and another one about Bob. -/
private def twoTastes : List Memory :=
  [likes "m1" "robert" "tea", likes "m3" "bob" "milk"]

/- The three tastes, and one of somebody else. -/
private def fourTastes : List Memory :=
  tastes ++ [likes "m4" "carol" "water"]

/- Robert is also known as Bob. -/
private def robert : Store.Entity where
  id := "e1"
  name := "Robert"
  aliases := ["Bob"]
  entityType := none
  createdAt := 0
  updatedAt := 0

/- The map that he gives rise to. -/
private def robertAliases : List (String × List String) :=
  buildEntityAliasMap Env.plain [robert]

/- One order of iteration. -/
private def asListed : Orders := ⟨.listed, .listed⟩

/- The reverse order of iteration. -/
private def backwards : Orders := ⟨.reversed, .reversed⟩

/- The memories of the examples have distinct ids. -/
private theorem distinctIds_tastes : DistinctIds tastes := by
  unfold DistinctIds
  decide +kernel

/- The two tastes have distinct ids. -/
private theorem distinctIds_twoTastes :
    DistinctIds twoTastes := by
  unfold DistinctIds
  decide +kernel

/- The four tastes have distinct ids. -/
private theorem distinctIds_fourTastes :
    DistinctIds fourTastes := by
  unfold DistinctIds
  decide +kernel

------------------------------------------------------------
-- Orders of the Groups
------------------------------------------------------------

section Order

variable {Vec F : Type} {env : Env Vec F}
variable {orders orders' : Orders} {xs : List Memory}
variable {entityAliases : List (String × List String)}

/- The pair of a report, without an order. -/
def ContradictionPair.unordered
    (r : ContradictionPair) : Sym2 Memory :=
  s(r.a, r.b)

/- The reported pairs, as pairs without an order. -/
def reportedPairs
    (env : Env Vec F)
    (orders : Orders)
    (xs : List Memory)
    (entityAliases : List (String × List String)) :
    Finset (Sym2 Memory) :=
  ((detectContradictions env orders xs entityAliases).map
    ContradictionPair.unordered).toFinset

/-
  The order of the groups does not matter for the first two
  stages.
-/
theorem fuzzyDetection_perm
    (hIds : DistinctIds xs) :
    (fuzzyDetection env orders xs).contradictions.Perm
        (fuzzyDetection env orders' xs).contradictions ∧
      (fuzzyDetection env orders xs).matchedIds =
        (fuzzyDetection env orders' xs).matchedIds := by
  have hExact :
      (exactDetection env orders xs).contradictions.Perm
          (exactDetection env orders' xs).contradictions ∧
        (exactDetection env orders xs).matchedIds =
          (exactDetection env orders' xs).matchedIds := by
    rw [exactDetection_eq, exactDetection_eq]
    exact run_perm hIds (orders.grouped.perm _)
      (orders'.grouped.perm _) rfl (List.Perm.refl _)
  rw [fuzzyDetection_eq, fuzzyDetection_eq]
  exact run_perm hIds (orders.bySubject.perm _)
    (orders'.bySubject.perm _) hExact.2 hExact.1

/- Other orders give the same reports, in another order. -/
theorem detectContradictions_perm
    (hIds : DistinctIds xs) :
    (detectContradictions env orders xs entityAliases).Perm
      (detectContradictions env orders' xs entityAliases) := by
  have hFuzzy :
      (fuzzyDetection env orders xs).contradictions.Perm
          (fuzzyDetection env orders' xs).contradictions ∧
        (fuzzyDetection env orders xs).matchedIds =
          (fuzzyDetection env orders' xs).matchedIds :=
    fuzzyDetection_perm hIds
  rw [detectContradictions_eq, detectContradictions_eq,
    hFuzzy.2]
  apply hFuzzy.1.append
  apply List.Perm.flatMap_right
  exact (orders.bySubject.perm _).trans
    (orders'.bySubject.perm _).symm

/-
  Whatever the order of iteration, the same pairs are
  reported.
-/
theorem contradictions_order_independent
    (hIds : DistinctIds xs) :
    reportedPairs env orders xs entityAliases =
      reportedPairs env orders' xs entityAliases :=
  List.toFinset_eq_of_perm _ _
    ((detectContradictions_perm hIds).map _)

/- The groups forwards and backwards. -/
theorem contradictions_order_independent_tastes :
    DistinctIds tastes ∧
      (Groups.collect (subjectKey Env.plain) tastes).length =
        2 ∧
      reportedPairs Env.plain asListed tastes robertAliases =
        reportedPairs Env.plain backwards tastes
          robertAliases :=
  ⟨distinctIds_tastes, by decide +kernel,
    contradictions_order_independent distinctIds_tastes⟩

end Order

------------------------------------------------------------
-- Which Facts Are Reported
------------------------------------------------------------

section Coverage

variable {Vec F : Type} {env : Env Vec F} {orders : Orders}
variable {xs : List Memory} {a b : Memory}
variable {entityAliases : List (String × List String)}
variable {r : ContradictionPair}

/- The ids of the first two stages' reports are matched. -/
theorem matchedIds_fuzzyDetection
    {v : String} :
    v ∈ (fuzzyDetection env orders xs).matchedIds ↔
      ∃ r ∈ (fuzzyDetection env orders xs).contradictions,
        v = r.a.id ∨ v = r.b.id := by
  rw [fuzzyDetection_eq, exactDetection_eq]
  apply matchedIds_run
  apply matchedIds_run
  simp

/- A report of a run is about two memories of the list. -/
theorem mem_of_mem_run
    {K : Type} [DecidableEq K] {key : Memory → Option K}
    {classify : Classify} {d : Detection}
    {groups : List (K × List Memory)}
    (hGroups : groups.Perm (Groups.collect key xs))
    (hStart :
      ∀ r ∈ d.contradictions, r.a ∈ xs ∧ r.b ∈ xs)
    (hMem :
      r ∈ (d.run classify
        (blocks groups).flatten).contradictions) :
    r.a ∈ xs ∧ r.b ∈ xs := by
  rcases mem_run_iff.mp hMem with hMem | ⟨⟨a, b⟩, hp, hReport⟩
  · exact hStart r hMem
  · have hEnds := ends_of_report hReport
    have hPair := Cover.kept_sublist.subset hp
    have hBlocks :
        (blocks groups).flatten.Perm
          (blocks (Groups.collect key xs)).flatten :=
      (hGroups.map _).flatten
    rw [hBlocks.mem_iff, mem_blocks_iff] at hPair
    rw [hEnds.1, hEnds.2]
    exact ⟨hPair.1.subset (by simp), hPair.1.subset (by simp)⟩

/- A report of the two stages is about the list. -/
theorem mem_of_mem_fuzzyDetection
    (hMem :
      r ∈ (fuzzyDetection env orders xs).contradictions) :
    r.a ∈ xs ∧ r.b ∈ xs := by
  rw [fuzzyDetection_eq] at hMem
  apply mem_of_mem_run (orders.bySubject.perm _) ?_ hMem
  intro r hr
  rw [exactDetection_eq] at hr
  apply mem_of_mem_run (orders.grouped.perm _) ?_ hr
  intro r hr
  cases hr

/- The reports of the last stage, by what is settled. -/
theorem mem_aliasReports_settled_iff
    (hIds : DistinctIds xs) :
    r ∈ aliasReports env orders xs entityAliases
        (fuzzyDetection env orders xs).matchedIds ↔
      ∃ a ∈ xs, ∃ b ∈ xs, AliasLink env entityAliases a b ∧
        ¬ Settled env xs a ∧ ¬ Settled env xs b ∧
        effectivePredicate a = effectivePredicate b ∧
        effectiveObject a ≠ effectiveObject b ∧
        r = ⟨a, b, .similarSubject, 1⟩ := by
  rw [mem_aliasReports_iff]
  constructor
  · rintro ⟨a, ha, b, hb, hLink, hPair⟩
    rw [aliasPair_eq_some_iff, mem_matchedIds_iff hIds ha,
      mem_matchedIds_iff hIds hb] at hPair
    rcases hPair with ⟨hA, hB, -, hPred, hObject, hEq⟩
    exact ⟨a, ha, b, hb, hLink, hA, hB, hPred, hObject, hEq⟩
  · rintro ⟨a, ha, b, hb, hLink, hA, hB, hPred, hObject, hEq⟩
    refine ⟨a, ha, b, hb, hLink, ?_⟩
    rw [aliasPair_eq_some_iff, mem_matchedIds_iff hIds ha,
      mem_matchedIds_iff hIds hb]
    refine ⟨hA, hB, fun hId => hObject ?_, hPred, hObject, hEq⟩
    rw [hIds.eq hb ha hId]

/- A fact is in some pair. -/
def Reported
    (env : Env Vec F)
    (orders : Orders)
    (xs : List Memory)
    (entityAliases : List (String × List String))
    (a : Memory) : Prop :=
  ∃ r ∈ detectContradictions env orders xs entityAliases,
    r.a = a ∨ r.b = a

/- A memory is reported if one of the stages takes it. -/
theorem reported_iff
    (hIds : DistinctIds xs)
    (ha : a ∈ xs) :
    Reported env orders xs entityAliases a ↔
      Settled env xs a ∨
        ∃ b ∈ xs, ¬ Settled env xs b ∧
          AliasContradicts env entityAliases a b := by
  have hMatched :
      Settled env xs a ↔
        ∃ r ∈ (fuzzyDetection env orders xs).contradictions,
          a.id = r.a.id ∨ a.id = r.b.id := by
    rw [← matchedIds_fuzzyDetection]
    exact (mem_matchedIds_iff hIds ha).symm
  unfold Reported
  rw [detectContradictions_eq]
  constructor
  · rintro ⟨r, hMem, hEnd⟩
    rcases List.mem_append.mp hMem with hMem | hMem
    · apply Or.inl
      rw [hMatched]
      refine ⟨r, hMem, ?_⟩
      rcases hEnd with hEnd | hEnd
      · exact Or.inl (by rw [hEnd])
      · exact Or.inr (by rw [hEnd])
    · rw [mem_aliasReports_settled_iff hIds] at hMem
      rcases hMem with
        ⟨c, hc, e, he, hLink, hC, hE, hPred, hObject, hEq⟩
      subst hEq
      apply Or.inr
      rcases hEnd with hEnd | hEnd
      · subst hEnd
        exact ⟨e, he, hE, hObject, hPred, Or.inl hLink⟩
      · subst hEnd
        exact ⟨c, hc, hC, hObject.symm, hPred.symm,
          Or.inr hLink⟩
  · intro h
    by_cases hSettled : Settled env xs a
    · rw [hMatched] at hSettled
      rcases hSettled with ⟨r, hMem, hEnd⟩
      have hEnds := mem_of_mem_fuzzyDetection hMem
      refine ⟨r, List.mem_append_left _ hMem, ?_⟩
      apply hEnd.imp
      · exact fun hId => hIds.eq hEnds.1 ha hId.symm
      · exact fun hId => hIds.eq hEnds.2 ha hId.symm
    · rcases h with h | ⟨b, hb, hB, hObject, hPred, hLink⟩
      · exact absurd h hSettled
      · rcases hLink with hLink | hLink
        · refine ⟨_, List.mem_append_right _
            ((mem_aliasReports_settled_iff hIds).mpr
              ⟨a, ha, b, hb, hLink, hSettled, hB, hPred, hObject,
                rfl⟩), Or.inl rfl⟩
        · refine ⟨_, List.mem_append_right _
            ((mem_aliasReports_settled_iff hIds).mpr
              ⟨b, hb, a, ha, hLink, hB, hSettled, hPred.symm,
                hObject.symm, rfl⟩), Or.inr rfl⟩

/- Every fact that contradicts another one is in some pair. -/
def ContradictionsCovered
    (env : Env Vec F)
    (orders : Orders)
    (xs : List Memory)
    (entityAliases : List (String × List String)) : Prop :=
  ∀ a ∈ xs,
    (∃ b ∈ xs, Contradicts env xs entityAliases a b) →
      Reported env orders xs entityAliases a

/- Exactly then is every contradicted memory reported. -/
theorem contradictions_covered_iff
    (hIds : DistinctIds xs) :
    ContradictionsCovered env orders xs entityAliases ↔
      ∀ a ∈ xs, ¬ Settled env xs a →
        (∃ b ∈ xs, Contradicts env xs entityAliases a b) →
          ∃ b ∈ xs, ¬ Settled env xs b ∧
            AliasContradicts env entityAliases a b := by
  constructor
  · intro hCovered a ha hNot hContradicts
    have hReported := hCovered a ha hContradicts
    rw [reported_iff hIds ha] at hReported
    exact hReported.resolve_left hNot
  · intro hRest a ha hContradicts
    rw [reported_iff hIds ha]
    by_cases hSettled : Settled env xs a
    · exact Or.inl hSettled
    · exact Or.inr (hRest a ha hSettled hContradicts)

/-
  The facts about Robert settle each other, and so hide that
  the one about Bob contradicts both.
-/
theorem contradictions_leave_out_bob :
    DistinctIds tastes ∧
      ¬ ContradictionsCovered Env.plain asListed tastes
        robertAliases := by
  refine ⟨distinctIds_tastes, ?_⟩
  intro hCovered
  have hLink :
      AliasLink Env.plain robertAliases
        (likes "m3" "bob" "milk") (likes "m1" "robert" "tea") :=
    ⟨"bob", "robert", by decide +kernel, by decide +kernel,
      by decide +kernel, by decide +kernel⟩
  have hContradicts :
      Contradicts Env.plain tastes robertAliases
        (likes "m3" "bob" "milk") (likes "m1" "robert" "tea") :=
    Or.inr ⟨by decide +kernel, by decide +kernel, Or.inl hLink⟩
  have hNot :
      ¬ Reported Env.plain asListed tastes robertAliases
        (likes "m3" "bob" "milk") := by
    unfold Reported
    decide +kernel
  exact hNot
    (hCovered (likes "m3" "bob" "milk") (by simp [tastes])
      ⟨_, by simp [tastes], hContradicts⟩)

/-
  With one fact about Robert neither is settled, and each is
  reported for the other.
-/
theorem contradictions_covered_iff_two_tastes :
    (∀ a ∈ twoTastes, ¬ Settled Env.plain twoTastes a) ∧
      ContradictionsCovered Env.plain asListed twoTastes
        robertAliases := by
  have hUnmatched :
      ∀ a ∈ twoTastes,
        a.id ∉ (fuzzyDetection Env.plain asListed
          twoTastes).matchedIds := by
    decide +kernel
  have hLinked :
      ∀ a ∈ twoTastes, ∃ b ∈ twoTastes,
        AliasContradicts Env.plain robertAliases a b := by
    decide +kernel
  have hNot :
      ∀ a ∈ twoTastes, ¬ Settled Env.plain twoTastes a :=
    fun a ha hSettled => hUnmatched a ha
      ((mem_matchedIds_iff distinctIds_twoTastes ha).mpr
        hSettled)
  refine ⟨hNot, (contradictions_covered_iff
    distinctIds_twoTastes).mpr ?_⟩
  intro a ha _ _
  rcases hLinked a ha with ⟨b, hb, hContradicts⟩
  exact ⟨b, hb, hNot b hb, hContradicts⟩

end Coverage

------------------------------------------------------------
-- How Often a Pair Is Reported
------------------------------------------------------------

section Once

variable {Vec F : Type} {env : Env Vec F} {orders : Orders}
variable {xs : List Memory} {a b : Memory}
variable {entityAliases : List (String × List String)}

/- The two facts of each report are matched. -/
def Detection.Matched (d : Detection) : Prop :=
  ∀ r ∈ d.contradictions,
    r.a.id ∈ d.matchedIds ∧ r.b.id ∈ d.matchedIds

/- A run's reports are the pairs that it keeps. -/
theorem map_unordered_run
    {classify : Classify} {d : Detection}
    {ps : List (Memory × Memory)} :
    (d.run classify ps).contradictions.map
        ContradictionPair.unordered =
      d.contradictions.map ContradictionPair.unordered ++
        ((comparison classify).kept ps d.matchedIds).map
          (fun p => s(p.1, p.2)) := by
  unfold Detection.run
  rw [List.map_append, List.map_filterMap]
  congr 1
  rw [← List.filterMap_eq_map]
  apply List.filterMap_congr
  intro p hp
  rcases report_of_mem_kept hp with ⟨r, hReport⟩
  have hEnds := ends_of_report hReport
  rw [hReport, Option.map_some, ContradictionPair.unordered,
    hEnds.1, hEnds.2]
  rfl

/- A stage reports no pair of facts twice. -/
theorem nodup_run
    {K : Type} [DecidableEq K] {key : Memory → Option K}
    {classify : Classify} {d : Detection}
    {groups : List (K × List Memory)}
    (hIds : DistinctIds xs)
    (hGroups : groups.Perm (Groups.collect key xs))
    (hNodup :
      (d.contradictions.map
        ContradictionPair.unordered).Nodup)
    (hMatched : d.Matched) :
    ((d.run classify (blocks groups).flatten).contradictions.map
      ContradictionPair.unordered).Nodup := by
  rw [map_unordered_run]
  apply List.nodup_append.mpr
  refine ⟨hNodup, ?_, ?_⟩
  · have hAll :
        ((blocks (Groups.collect key xs)).flatten.map
          (fun p => s(p.1, p.2))).Nodup :=
      nodup_blocks hIds
    have hBlocks :
        ((blocks groups).flatten.map
          (fun p => s(p.1, p.2))).Nodup :=
      (((hGroups.map _).flatten.map _).nodup_iff).mpr hAll
    exact hBlocks.sublist (Cover.kept_sublist.map _)
  · -- A pair of two matched facts is passed over.
    rintro z hz w hw hEq
    rcases List.mem_map.mp hz with ⟨r, hr, hOld⟩
    rcases List.mem_map.mp hw with ⟨p, hp, hNew⟩
    have hTakes := Cover.takes_of_mem_kept hp
    have hBoth := hMatched r hr
    apply hTakes.2
    have hSame : s(r.a, r.b) = s(p.1, p.2) :=
      hOld.trans (hEq.trans hNew.symm)
    rcases Sym2.eq_iff.mp hSame with hEnds | hEnds
    · rw [hEnds.1, hEnds.2] at hBoth
      exact hBoth
    · rw [hEnds.1, hEnds.2] at hBoth
      exact ⟨hBoth.2, hBoth.1⟩

/- The second stage notes whom it has matched. -/
theorem matched_fuzzyDetection :
    (fuzzyDetection env orders xs).Matched := by
  intro r hr
  rw [matchedIds_fuzzyDetection, matchedIds_fuzzyDetection]
  exact ⟨⟨r, hr, Or.inl rfl⟩, ⟨r, hr, Or.inr rfl⟩⟩

/- The first stage notes whom it has matched. -/
theorem matched_exactDetection :
    (exactDetection env orders xs).Matched := by
  have hIff :
      ∀ v, v ∈ (exactDetection env orders xs).matchedIds ↔
        ∃ r ∈ (exactDetection env orders xs).contradictions,
          v = r.a.id ∨ v = r.b.id := by
    intro v
    rw [exactDetection_eq]
    apply matchedIds_run
    simp
  intro r hr
  rw [hIff, hIff]
  exact ⟨⟨r, hr, Or.inl rfl⟩, ⟨r, hr, Or.inr rfl⟩⟩

/- The two stages report no pair twice. -/
theorem nodup_fuzzyDetection
    (hIds : DistinctIds xs) :
    ((fuzzyDetection env orders xs).contradictions.map
      ContradictionPair.unordered).Nodup := by
  rw [fuzzyDetection_eq]
  apply nodup_run hIds (orders.bySubject.perm _) ?_
    matched_exactDetection
  rw [exactDetection_eq]
  apply nodup_run hIds (orders.grouped.perm _)
  · exact List.nodup_nil
  · intro r hr
    cases hr

/- What is left is whether the last stage repeats a pair. -/
theorem nodup_detectContradictions_iff
    (hIds : DistinctIds xs) :
    ((detectContradictions env orders xs entityAliases).map
        ContradictionPair.unordered).Nodup ↔
      ((aliasReports env orders xs entityAliases
        (fuzzyDetection env orders xs).matchedIds).map
          ContradictionPair.unordered).Nodup := by
  rw [detectContradictions_eq, List.map_append,
    List.nodup_append]
  constructor
  · exact fun h => h.2.1
  · intro hLast
    refine ⟨nodup_fuzzyDetection hIds, hLast, ?_⟩
    rintro z hz w hw hEq
    rcases List.mem_map.mp hz with ⟨r, hr, hOld⟩
    rcases List.mem_map.mp hw with ⟨r', hr', hNew⟩
    have hBoth := matched_fuzzyDetection r hr
    rcases mem_aliasReports_iff.mp hr' with
      ⟨a, -, b, -, -, hPair⟩
    rw [aliasPair_eq_some_iff] at hPair
    have hSame : s(r.a, r.b) = s(a, b) := by
      have hEnds : r'.unordered = s(a, b) := by
        rw [hPair.2.2.2.2.2]
        rfl
      exact hOld.trans (hEq.trans (hNew.symm.trans hEnds))
    rcases Sym2.eq_iff.mp hSame with hEnds | hEnds
    · rw [hEnds.1] at hBoth
      exact hPair.1 hBoth.1
    · rw [hEnds.2] at hBoth
      exact hPair.1 hBoth.2

------------------------------------------------------------
-- Aliases of Entities
------------------------------------------------------------

variable {entities : List Store.Entity} {subj name : String}

/- The map of names grows by the names of each entity. -/
theorem mem_lookup_addNames_iff
    {map : List (String × List String)} :
    name ∈ ((entities.foldl (addNames env) map).lookup
        subj).getD [] ↔
      name ∈ (map.lookup subj).getD [] ∨
        ∃ e ∈ entities, subj ∈ allNames env e ∧
          name ∈ allNames env e := by
  induction entities generalizing map with
  | nil => simp
  | cons e entities ih =>
      rw [List.foldl_cons, ih, addNames,
        Groups.mem_lookup_foldl_extend_iff,
        List.exists_mem_cons_iff, or_assoc]

/- The other names of the entities that have a name. -/
theorem mem_buildEntityAliasMap_iff :
    name ∈ ((buildEntityAliasMap env entities).lookup
        subj).getD [] ↔
      name ≠ subj ∧
        ∃ e ∈ entities, subj ∈ allNames env e ∧
          name ∈ allNames env e := by
  have hNames :
      name ∈ ((entities.foldl (addNames env) []).lookup
          subj).getD [] ↔
        name ∈ (List.lookup subj []).getD [] ∨
          ∃ e ∈ entities, subj ∈ allNames env e ∧
            name ∈ allNames env e :=
    mem_lookup_addNames_iff
  unfold buildEntityAliasMap
  rw [Groups.lookup_map]
  cases hLookup :
      (entities.foldl (addNames env) []).lookup subj with
  | none =>
      rw [hLookup] at hNames
      simp only [Option.getD_none, List.not_mem_nil,
        List.lookup_nil, false_or, false_iff] at hNames
      simp [hNames]
  | some aliases =>
      rw [hLookup] at hNames
      simp only [Option.getD_some, List.lookup_nil,
        Option.getD_none, List.not_mem_nil, false_or] at hNames
      rw [Option.map_some, Option.getD_some, otherNames,
        List.mem_filter, List.mem_dedup,
        List.mem_insertionSort, hNames, decide_eq_true_iff]
      exact and_comm

/- These names are in lower case already. -/
theorem toLowercase_of_mem_allNames
    {e : Store.Entity}
    (hLower : env.caseData.Idempotent)
    (hName : name ∈ allNames env e) :
    env.toLowercase name = name := by
  rcases List.mem_append.mp hName with hName | hName
  · rcases List.mem_map.mp hName with ⟨«alias», -, hEq⟩
    rw [← hEq]
    exact hLower «alias»
  · rw [List.mem_singleton.mp hName]
    exact hLower e.name

/- The entities link two subjects both ways, or not at all. -/
theorem aliasLink_symm
    (hLower : env.caseData.Idempotent)
    (hLink :
      AliasLink env (buildEntityAliasMap env entities) a b) :
    AliasLink env (buildEntityAliasMap env entities) b a := by
  rcases hLink with ⟨subj, name, ha, hName, hOther, hb⟩
  rw [mem_buildEntityAliasMap_iff] at hName
  rcases hName with ⟨hNe, e, he, hSubj, hName⟩
  rw [toLowercase_of_mem_allNames hLower hName] at hb
  have hSame := toLowercase_of_mem_allNames hLower hSubj
  refine ⟨name, subj, hb, ?_, ?_, ?_⟩
  · rw [mem_buildEntityAliasMap_iff]
    exact ⟨hNe.symm, e, he, hName, hSubj⟩
  · rw [hSame]
    exact hNe.symm
  · rw [hSame]
    exact ha

/-
  No pair of facts is reported twice, and the count of the
  reports is the number of such pairs.
-/
structure ReportedOnce
    (reports : List ContradictionPair) : Prop where
  once : (reports.map ContradictionPair.unordered).Nodup
  counted :
    reports.length =
      (reports.map ContradictionPair.unordered).toFinset.card

/-
  No pair is reported twice if the list of pairs has no
  repetition.
-/
theorem reportedOnce_iff
    {reports : List ContradictionPair} :
    ReportedOnce reports ↔
      (reports.map ContradictionPair.unordered).Nodup := by
  constructor
  · exact ReportedOnce.once
  · intro hNodup
    refine ⟨hNodup, ?_⟩
    rw [List.toFinset_card_of_nodup hNodup, List.length_map]

/- Exactly then is no pair reported twice. -/
theorem contradictions_once_iff
    (hIds : DistinctIds xs)
    (hLower : env.caseData.Idempotent) :
    ReportedOnce
        (detectContradictions env orders xs
          (buildEntityAliasMap env entities)) ↔
      ∀ a ∈ xs, ∀ b ∈ xs,
        ¬ Settled env xs a → ¬ Settled env xs b →
          ¬ AliasContradicts env
            (buildEntityAliasMap env entities) a b := by
  rw [reportedOnce_iff, nodup_detectContradictions_iff hIds]
  constructor
  · intro hNodup a ha b hb hA hB hContradicts
    have hLink := hContradicts.2.2
    have hBack :
        AliasLink env (buildEntityAliasMap env entities) a b ∧
          AliasLink env (buildEntityAliasMap env entities)
            b a := by
      rcases hLink with hLink | hLink
      · exact ⟨hLink, aliasLink_symm hLower hLink⟩
      · exact ⟨aliasLink_symm hLower hLink, hLink⟩
    have hOne :
        (⟨a, b, .similarSubject, 1⟩ : ContradictionPair) ∈
          aliasReports env orders xs
            (buildEntityAliasMap env entities)
            (fuzzyDetection env orders xs).matchedIds :=
      (mem_aliasReports_settled_iff hIds).mpr
        ⟨a, ha, b, hb, hBack.1, hA, hB, hContradicts.2.1,
          hContradicts.1, rfl⟩
    have hTwo :
        (⟨b, a, .similarSubject, 1⟩ : ContradictionPair) ∈
          aliasReports env orders xs
            (buildEntityAliasMap env entities)
            (fuzzyDetection env orders xs).matchedIds :=
      (mem_aliasReports_settled_iff hIds).mpr
        ⟨b, hb, a, ha, hBack.2, hB, hA, hContradicts.2.1.symm,
          hContradicts.1.symm, rfl⟩
    -- The two reports are different, but of the same facts.
    have hSame :=
      List.inj_on_of_nodup_map hNodup hOne hTwo Sym2.eq_swap
    have hEq : a = b := congrArg ContradictionPair.a hSame
    exact hContradicts.1 (by rw [hEq])
  · intro hNone
    have hNil :
        aliasReports env orders xs
            (buildEntityAliasMap env entities)
            (fuzzyDetection env orders xs).matchedIds =
          [] := by
      apply List.eq_nil_iff_forall_not_mem.mpr
      intro r hr
      rw [mem_aliasReports_settled_iff hIds] at hr
      rcases hr with
        ⟨a, ha, b, hb, hLink, hA, hB, hPred, hObject, -⟩
      exact hNone a ha b hb hA hB
        ⟨hObject, hPred, Or.inl hLink⟩
    rw [hNil]
    exact List.nodup_nil

/- Each of the two finds the other, and both are counted. -/
theorem contradictions_repeat_alias :
    DistinctIds twoTastes ∧
      Env.plain.caseData.Idempotent ∧
      ¬ ReportedOnce
        (detectContradictions Env.plain asListed twoTastes
          (buildEntityAliasMap Env.plain [robert])) := by
  refine ⟨distinctIds_twoTastes,
    Text.CaseData.ascii_lowered.idempotent, ?_⟩
  intro hOnce
  have hTwice :
      ¬ ((detectContradictions Env.plain asListed twoTastes
        (buildEntityAliasMap Env.plain [robert])).map
          ContradictionPair.unordered).Nodup := by
    decide +kernel
  exact hTwice hOnce.once

/-
  The facts about Bob and Carol are not settled, and as no
  alias links the two, each pair is reported once.
-/
theorem contradictions_once_iff_four_tastes :
    (∃ a ∈ fourTastes, ∃ b ∈ fourTastes, a.id ≠ b.id ∧
      ¬ Settled Env.plain fourTastes a ∧
        ¬ Settled Env.plain fourTastes b) ∧
      ReportedOnce
        (detectContradictions Env.plain asListed fourTastes
          (buildEntityAliasMap Env.plain [robert])) := by
  have hMatched :
      ∀ a ∈ fourTastes,
        (a.id ∈ (fuzzyDetection Env.plain asListed
          fourTastes).matchedIds ↔
            Settled Env.plain fourTastes a) :=
    fun a ha => mem_matchedIds_iff distinctIds_fourTastes ha
  have hUnmatched :
      ∃ a ∈ fourTastes, ∃ b ∈ fourTastes, a.id ≠ b.id ∧
        a.id ∉ (fuzzyDetection Env.plain asListed
          fourTastes).matchedIds ∧
        b.id ∉ (fuzzyDetection Env.plain asListed
          fourTastes).matchedIds := by
    decide +kernel
  have hUnlinked :
      ∀ a ∈ fourTastes, ∀ b ∈ fourTastes,
        a.id ∉ (fuzzyDetection Env.plain asListed
          fourTastes).matchedIds →
        b.id ∉ (fuzzyDetection Env.plain asListed
          fourTastes).matchedIds →
          ¬ AliasContradicts Env.plain
            (buildEntityAliasMap Env.plain [robert]) a b := by
    decide +kernel
  have hLower : Env.plain.caseData.Idempotent :=
    Text.CaseData.ascii_lowered.idempotent
  constructor
  · rcases hUnmatched with ⟨a, ha, b, hb, hNe, hA, hB⟩
    rw [hMatched a ha] at hA
    rw [hMatched b hb] at hB
    exact ⟨a, ha, b, hb, hNe, hA, hB⟩
  · refine (contradictions_once_iff distinctIds_fourTastes
      hLower).mpr ?_
    intro a ha b hb hA hB
    rw [← hMatched a ha] at hA
    rw [← hMatched b hb] at hB
    exact hUnlinked a ha b hb hA hB

end Once

end Reflect

end Core

end Ferrex
