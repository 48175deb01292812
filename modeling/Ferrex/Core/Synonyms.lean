import Mathlib.Data.String.Basic
import Ferrex.Core.Config
import Ferrex.Core.NormalText
import Ferrex.Core.Service

/-
  The table of synonyms as a whole: which group a text is
  found by, and what becomes of a predicate that is
  normalized twice.  Of the groups that have a text the first
  by name keeps it.

  Main declarations:
    * `PredicateNormalizer.Keeps`
    * `PredicateNormalizer.lookup_new_eq_some_iff`
    * `PredicateNormalizer.normalize_cases`
    * `MemoryService.fromPredicates`
    * `predicate_normalization_idempotent_iff`
-/

------------------------------------------------------------
-- The Texts of a Group
------------------------------------------------------------

namespace Ferrex

namespace Core

open Store

variable {Vec F : Type}

namespace PredicateNormalizer

variable {env : Env Vec F}
variable {n : PredicateNormalizer}
variable {groups : List (String × List String)}
variable {g : String × List String}
variable {text c : String}

/- The texts that a group is to be found by. -/
def groupTexts
    (env : Env Vec F)
    (g : String × List String) : List String :=
  (g.1 :: g.2).map (textNormalize env)

/- Of the groups with a text, it is the first by name. -/
structure Keeps
    (env : Env Vec F)
    (groups : List (String × List String))
    (g : String × List String)
    (text : String) : Prop where
  mem : g ∈ groups
  has : text ∈ groupTexts env g
  first :
    ∀ g' ∈ groups, text ∈ groupTexts env g' → g.1 ≤ g'.1

/- Decided by looking at the groups before it. -/
instance
    (groups : List (String × List String))
    (g : String × List String)
    (text : String) :
    Decidable (Keeps env groups g text) :=
  decidable_of_iff
    (g ∈ groups ∧ text ∈ groupTexts env g ∧
      ∀ g' ∈ groups, text ∈ groupTexts env g' → g.1 ≤ g'.1)
    ⟨fun h => ⟨h.1, h.2.1, h.2.2⟩,
      fun h => ⟨h.mem, h.has, h.first⟩⟩

------------------------------------------------------------
-- The Lookup
------------------------------------------------------------

/- A member is found, unless it was there before. -/
theorem lookup_addMember
    (canonical member text : String)
    (n : PredicateNormalizer) :
    (addMember canonical n member).lookup.lookup text =
      (n.lookup.lookup text).or
        (if text = member then some canonical else none) := by
  unfold addMember
  split
  · rename_i hHas
    by_cases hText : text = member
    · rcases hHas with ⟨e, he, hKey⟩
      have hSome : (n.lookup.lookup text).isSome := by
        rw [List.lookup_isSome_iff]
        exact ⟨e, he, by simp [hText, hKey]⟩
      rcases Option.isSome_iff_exists.mp hSome with ⟨c, hc⟩
      rw [hc]
      rfl
    · rw [if_neg hText, Option.or_none]
  · rw [List.lookup_append]
    by_cases hText : text = member
    · simp [hText]
    · simp [hText, List.lookup_cons, beq_false_of_ne hText]

/- The same for several members. -/
theorem lookup_addMembers
    (canonical text : String)
    (members : List String)
    (n : PredicateNormalizer) :
    (members.foldl (addMember canonical) n).lookup.lookup text =
      (n.lookup.lookup text).or
        (if text ∈ members then some canonical else none) := by
  induction members generalizing n with
  | nil => simp
  | cons member members ih =>
      rw [List.foldl_cons, ih, lookup_addMember,
        Option.or_assoc]
      by_cases hText : text = member
      · simp [hText]
      · simp [hText]

/- The same for a group. -/
theorem lookup_addGroup
    (text : String)
    (n : PredicateNormalizer)
    (g : String × List String) :
    (addGroup env n g).lookup.lookup text =
      (n.lookup.lookup text).or
        (if text ∈ groupTexts env g then some g.1 else none) :=
  lookup_addMembers g.1 text (groupTexts env g) n

/- And for all groups: the first that has the text. -/
theorem lookup_addGroups
    (text : String)
    (groups : List (String × List String))
    (n : PredicateNormalizer) :
    (groups.foldl (addGroup env) n).lookup.lookup text =
      (n.lookup.lookup text).or
        ((groups.find?
          (fun g => text ∈ groupTexts env g)).map
            Prod.fst) := by
  induction groups generalizing n with
  | nil => simp
  | cons g groups ih =>
      rw [List.foldl_cons, ih, lookup_addGroup,
        Option.or_assoc, List.find?_cons]
      by_cases hText : text ∈ groupTexts env g
      · simp [hText]
      · simp [hText]

/- A text is found by the group that keeps it. -/
theorem lookup_new_eq_some_iff :
    (new env groups).lookup.lookup text = some c ↔
      ∃ g, Keeps env groups g text ∧ g.1 = c := by
  let sorted := groups.insertionSort (fun a b => a.1 ≤ b.1)
  have hMem : ∀ g, g ∈ sorted ↔ g ∈ groups :=
    fun g => List.mem_insertionSort _
  have hTotal :
      Std.Total
        (fun a b : String × List String => a.1 ≤ b.1) :=
    ⟨fun a b => le_total a.1 b.1⟩
  have hTrans :
      IsTrans (String × List String)
        (fun a b => a.1 ≤ b.1) :=
    ⟨fun _ _ _ hAB hBC => hAB.trans hBC⟩
  have hSorted : sorted.Pairwise (fun a b => a.1 ≤ b.1) :=
    List.pairwise_insertionSort _ groups
  have hFound :
      ∀ g, sorted.find? (fun g => text ∈ groupTexts env g) =
          some g →
        Keeps env groups g text := by
    intro g hFind
    rcases List.find?_eq_some_iff_append.mp hFind with
      ⟨hHas, front, back, hSplit, hFront⟩
    have hIn : g ∈ sorted := by
      rw [hSplit]
      simp
    refine ⟨(hMem g).mp hIn, of_decide_eq_true hHas, ?_⟩
    intro g' hg' hHas'
    have hWhere : g' ∈ front ++ g :: back := by
      rw [← hSplit]
      exact (hMem g').mpr hg'
    rw [hSplit, List.pairwise_append,
      List.pairwise_cons] at hSorted
    rcases List.mem_append.mp hWhere with hWhere | hWhere
    · have hNot := hFront g' hWhere
      simp [hHas'] at hNot
    · rcases List.mem_cons.mp hWhere with rfl | hWhere
      · exact le_refl _
      · exact hSorted.2.1.1 g' hWhere
  have hLookup :
      (new env groups).lookup.lookup text =
        (sorted.find?
          (fun g => text ∈ groupTexts env g)).map Prod.fst := by
    unfold new
    rw [lookup_addGroups]
    rfl
  rw [hLookup, Option.map_eq_some_iff]
  constructor
  · rintro ⟨g, hFind, hName⟩
    exact ⟨g, hFound g hFind, hName⟩
  · rintro ⟨g, hKeeps, rfl⟩
    have hSome :
        (sorted.find?
          (fun g => text ∈ groupTexts env g)).isSome := by
      rw [List.find?_isSome]
      exact ⟨g, (hMem g).mpr hKeeps.mem, by
        simpa using hKeeps.has⟩
    rcases Option.isSome_iff_exists.mp hSome with ⟨g', hFind⟩
    have hKeeps' := hFound g' hFind
    exact ⟨g', hFind,
      le_antisymm (hKeeps'.first g hKeeps.mem hKeeps.has)
        (hKeeps.first g' hKeeps'.mem hKeeps'.has)⟩

/- Every text of a group is kept by some group. -/
theorem exists_keeps
    (hMem : g ∈ groups)
    (hHas : text ∈ groupTexts env g) :
    ∃ g', Keeps env groups g' text := by
  cases hLookup : (new env groups).lookup.lookup text with
  | some c =>
      rcases lookup_new_eq_some_iff.mp hLookup with
        ⟨g', hKeeps, _⟩
      exact ⟨g', hKeeps⟩
  | none =>
      unfold new at hLookup
      rw [lookup_addGroups] at hLookup
      have hNone :
          (groups.insertionSort (fun a b => a.1 ≤ b.1)).find?
              (fun g => text ∈ groupTexts env g) = none := by
        simpa using hLookup
      have hNot := List.find?_eq_none.mp hNone g
        ((List.mem_insertionSort _).mpr hMem)
      exact absurd (decide_eq_true hHas) hNot

------------------------------------------------------------
-- The Entries
------------------------------------------------------------

/- The entries are those of the lookup, each text once. -/
structure Paired (n : PredicateNormalizer) : Prop where
  pairs :
    n.lookup =
      n.synonyms.map (fun e => (e.member, e.canonical))
  unique : Table.KeyUnique Prod.fst n.lookup

/- A member is entered in both tables. -/
theorem Paired.addMember
    (canonical member : String)
    (hPaired : Paired n) :
    Paired (addMember canonical n member) := by
  unfold PredicateNormalizer.addMember
  split
  · exact hPaired
  · rename_i hFresh
    refine ⟨?_, hPaired.unique.append hFresh⟩
    simp [hPaired.pairs]

/- So the tables agree. -/
theorem paired_new
    (env : Env Vec F)
    (groups : List (String × List String)) :
    Paired (new env groups) := by
  have hMembers :
      ∀ (canonical : String) (members : List String)
        (n : PredicateNormalizer), Paired n →
          Paired (members.foldl
            (PredicateNormalizer.addMember canonical) n) := by
    intro canonical members
    induction members with
    | nil => exact fun _ h => h
    | cons member members ih =>
        exact fun n h => ih _ (h.addMember canonical member)
  have hGroups :
      ∀ (gs : List (String × List String))
        (n : PredicateNormalizer), Paired n →
          Paired (gs.foldl (addGroup env) n) := by
    intro gs
    induction gs with
    | nil => exact fun _ h => h
    | cons g gs ih =>
        exact fun n h => ih _ (hMembers g.1 _ n h)
  exact hGroups _ _ ⟨rfl, List.nodup_nil⟩

/- An entry has the name of the group that keeps its text. -/
theorem keeps_of_mem_synonyms
    {e : SynonymEntry}
    (hMem : e ∈ (new env groups).synonyms) :
    ∃ g, Keeps env groups g e.member ∧ g.1 = e.canonical := by
  have hPaired := paired_new env groups
  apply lookup_new_eq_some_iff.mp
  rw [KeyMap.lookup_eq_some_iff hPaired.unique, hPaired.pairs]
  exact List.mem_map.mpr ⟨e, hMem, rfl⟩

/- The closest synonym is an entry past the threshold. -/
theorem bestSynonym_eq_some
    {score : Rat}
    (h : n.bestSynonym env text = some (c, score)) :
    ∃ e ∈ n.synonyms,
      e.canonical = c ∧
        fuzzyThreshold < env.jaroWinkler text e.member := by
  have hFold :
      ∀ (entries : List SynonymEntry)
        (best : Option (String × Rat)),
        (∀ e ∈ entries, e ∈ n.synonyms) →
        (∀ b ∈ best, ∃ e ∈ n.synonyms, e.canonical = b.1 ∧
          fuzzyThreshold < env.jaroWinkler text e.member) →
        ∀ b ∈ entries.foldl
            (fun best entry =>
              let score := env.jaroWinkler text entry.member
              if fuzzyThreshold < score ∧
                  ∀ b ∈ best, b.2 < score then
                some (entry.canonical, score)
              else
                best)
            best,
          ∃ e ∈ n.synonyms, e.canonical = b.1 ∧
            fuzzyThreshold < env.jaroWinkler text e.member := by
    intro entries
    induction entries with
    | nil => exact fun best _ hBest => hBest
    | cons entry entries ih =>
        intro best hEntries hBest
        rw [List.foldl_cons]
        apply ih _ (fun e he =>
          hEntries e (List.mem_cons_of_mem _ he))
        dsimp only
        split
        · rename_i hCloser
          intro b hb
          cases hb
          exact ⟨entry, hEntries entry List.mem_cons_self,
            rfl, hCloser.1⟩
        · exact hBest
  exact hFold n.synonyms none (fun _ he => he) (by simp)
    (c, score) h

/-
  A predicate becomes nothing, or the name of an entry that
  has its text or is close to it, or its own text.
-/
theorem normalize_cases
    (n : PredicateNormalizer)
    (env : Env Vec F)
    (input : String) :
    (textNormalize env input = "" ∧
        n.normalize env input = "") ∨
      (textNormalize env input ≠ "" ∧
        n.lookup.lookup (textNormalize env input) =
          some (n.normalize env input)) ∨
      (textNormalize env input ≠ "" ∧
        ∃ e ∈ n.synonyms,
          e.canonical = n.normalize env input ∧
            fuzzyThreshold <
              env.jaroWinkler (textNormalize env input)
                e.member) ∨
      (textNormalize env input ≠ "" ∧
        n.lookup.lookup (textNormalize env input) = none ∧
        n.bestSynonym env (textNormalize env input) = none ∧
        n.normalize env input = textNormalize env input) := by
  unfold normalize
  dsimp only
  by_cases hEmpty : textNormalize env input = ""
  · left
    simp [hEmpty]
  · right
    rw [if_neg (by simpa using hEmpty)]
    cases hLookup :
        n.lookup.lookup (textNormalize env input) with
    | some c => exact Or.inl ⟨hEmpty, rfl⟩
    | none =>
        right
        cases hBest :
            n.bestSynonym env (textNormalize env input) with
        | some best =>
            rcases bestSynonym_eq_some hBest with
              ⟨e, he, hName, hClose⟩
            exact Or.inl ⟨hEmpty, e, he, hName, hClose⟩
        | none => exact Or.inr ⟨hEmpty, rfl, rfl, rfl⟩

/- A text that is found stands for its canonical name. -/
theorem normalize_of_lookup
    {input : String}
    (hText : textNormalize env input ≠ "")
    (hLookup :
      n.lookup.lookup (textNormalize env input) = some c) :
    n.normalize env input = c := by
  unfold normalize
  dsimp only
  rw [if_neg (by simpa using hText), hLookup]

end PredicateNormalizer

------------------------------------------------------------
-- The Normalizers of a Service
------------------------------------------------------------

/- A namespace with groups of its own has a normalizer. -/
def MemoryService.fromPredicates
    (env : Env Vec F)
    (config : FerrexConfig F)
    (predicates : PredicatesConfig) : MemoryService F where
  config := config
  normalizers :=
    predicates.namespaces.entries.map
      (fun e =>
        (e.1, .new env
          (resolveNamespaceGroups predicates e.1).entries))
  defaultNormalizer := .new env predicates.groups.entries

/- The service has one normalizer for each namespace. -/
theorem MemoryService.normalizer_fromPredicates
    (env : Env Vec F)
    (config : FerrexConfig F)
    (predicates : PredicatesConfig)
    (ns : String) :
    (fromPredicates env config predicates).normalizer ns =
      .new env (resolveNamespaceGroups predicates ns).entries := by
  have hMap :
      ∀ (entries : List (String × NamespacePredicatesConfig))
        (f : String → PredicateNormalizer),
        (entries.map (fun e => (e.1, f e.1))).lookup ns =
          if (entries.lookup ns).isSome then
            some (f ns)
          else
            none := by
    intro entries f
    induction entries with
    | nil => rfl
    | cons e entries ih =>
        rw [List.map_cons, List.lookup_cons, List.lookup_cons,
          ih]
        by_cases hKey : ns = e.1
        · rw [hKey, BEq.rfl]
          rfl
        · rw [beq_false_of_ne hKey]
  unfold MemoryService.normalizer fromPredicates
  dsimp only
  rw [hMap _ (fun name =>
    .new env (resolveNamespaceGroups predicates name).entries)]
  cases hConfig : predicates.namespaces.entries.lookup ns with
  | some nsConfig => rfl
  | none =>
      have hGet : predicates.namespaces.get ns = none := hConfig
      unfold resolveNamespaceGroups
      rw [hGet]
      rfl

------------------------------------------------------------
-- Normalizing Twice
------------------------------------------------------------

namespace PredicateNormalizer

variable {env : Env Vec F}
variable {groups : List (String × List String)}

/-
  What a predicate becomes is the name of a group that keeps
  some text, unless it is nothing or the predicate's own text.
-/
theorem normalize_new_cases
    (groups : List (String × List String))
    (input : String)
    (hEmpty : ∀ t, t ≠ "" → env.jaroWinkler t "" = 0) :
    (new env groups).normalize env input = "" ∨
      (∃ g m, m ≠ "" ∧ Keeps env groups g m ∧
        (new env groups).normalize env input = g.1) ∨
      (textNormalize env input ≠ "" ∧
        (new env groups).lookup.lookup
            (textNormalize env input) = none ∧
        (new env groups).bestSynonym env
            (textNormalize env input) = none ∧
        (new env groups).normalize env input =
          textNormalize env input) := by
  rcases normalize_cases (new env groups) env input with
    ⟨_, hNothing⟩ | ⟨hText, hLookup⟩ |
    ⟨hText, e, he, hName, hClose⟩ | hOwn
  · exact Or.inl hNothing
  · rcases lookup_new_eq_some_iff.mp hLookup with
      ⟨g, hKeeps, hName⟩
    exact Or.inr (Or.inl ⟨g, _, hText, hKeeps, hName.symm⟩)
  · rcases keeps_of_mem_synonyms he with ⟨g, hKeeps, hGroup⟩
    have hMember : e.member ≠ "" := by
      intro hNone
      rw [hNone, hEmpty _ hText] at hClose
      revert hClose
      decide +kernel
    exact Or.inr (Or.inl ⟨g, _, hMember, hKeeps,
      hName.symm.trans hGroup.symm⟩)
  · exact Or.inr (Or.inr hOwn)

/- The text of a group's name is the text of some group. -/
theorem normalize_name
    {g : String × List String}
    (hMem : g ∈ groups)
    (hName : textNormalize env g.1 ≠ "") :
    ∃ g', Keeps env groups g' (textNormalize env g.1) ∧
      (new env groups).normalize env g.1 = g'.1 := by
  have hHas : textNormalize env g.1 ∈ groupTexts env g :=
    List.mem_map_of_mem List.mem_cons_self
  rcases exists_keeps hMem hHas with ⟨g', hKeeps⟩
  exact ⟨g', hKeeps, normalize_of_lookup hName
    (lookup_new_eq_some_iff.mpr ⟨g', hKeeps, rfl⟩)⟩

/-
  Every predicate is normalized to what stays as it is if and
  only if every group with a text also keeps its name.
-/
theorem normalize_idempotent_iff
    (env : Env Vec F)
    (groups : List (String × List String))
    (hIdempotent : env.caseData.Idempotent)
    (hEmpty : ∀ t, t ≠ "" → env.jaroWinkler t "" = 0)
    (hNames : ∀ g ∈ groups, textNormalize env g.1 ≠ "") :
    (∀ p,
      (new env groups).normalize env
          ((new env groups).normalize env p) =
        (new env groups).normalize env p) ↔
      ∀ g m, m ≠ "" → Keeps env groups g m →
        Keeps env groups g (textNormalize env g.1) := by
  have hTwice :
      ∀ s, textNormalize env (textNormalize env s) =
        textNormalize env s :=
    fun s => normalizeText_idempotent s hIdempotent
  constructor
  · intro hStays g m hText hKeeps
    have hMember : textNormalize env m = m := by
      rcases List.mem_map.mp hKeeps.has with ⟨x, _, rfl⟩
      exact hTwice x
    have hOnce : (new env groups).normalize env m = g.1 := by
      apply normalize_of_lookup
      · rwa [hMember]
      · rw [hMember]
        exact lookup_new_eq_some_iff.mpr ⟨g, hKeeps, rfl⟩
    rcases normalize_name hKeeps.mem (hNames g hKeeps.mem) with
      ⟨g', hKeeps', hAgain⟩
    have hSame : g'.1 = g.1 := by
      have hStay := hStays m
      rw [hOnce] at hStay
      exact hAgain.symm.trans hStay
    exact ⟨hKeeps.mem, List.mem_map_of_mem List.mem_cons_self,
      fun x hx hHas => hSame ▸ hKeeps'.first x hx hHas⟩
  · intro hOwn p
    rcases normalize_new_cases groups p hEmpty with
      hNothing | ⟨g, m, hText, hKeeps, hName⟩ |
      ⟨hText, hLookup, hBest, hSelf⟩
    · rw [hNothing]
      rfl
    · rw [hName]
      exact normalize_of_lookup (hNames g hKeeps.mem)
        (lookup_new_eq_some_iff.mpr
          ⟨g, hOwn g m hText hKeeps, rfl⟩)
    · rw [hSelf]
      unfold normalize
      dsimp only
      rw [hTwice, if_neg (by simpa using hText), hLookup, hBest]

end PredicateNormalizer

/-
  The same for the normalizer of any namespace of a service
  with any groups.  A group that has a text, but whose name
  an earlier group has, is named after that group when its
  name is normalized again.  Configurations with a group
  whose own name normalizes to nothing are left out.
-/
theorem predicate_normalization_idempotent_iff
    (env : Env Vec F)
    (config : FerrexConfig F)
    (predicates : PredicatesConfig)
    (ns : String)
    (hIdempotent : env.caseData.Idempotent)
    (hEmpty : ∀ t, t ≠ "" → env.jaroWinkler t "" = 0)
    (hNames :
      ∀ g ∈ (resolveNamespaceGroups predicates ns).entries,
        PredicateNormalizer.textNormalize env g.1 ≠ "") :
    let n :=
      (MemoryService.fromPredicates env config
        predicates).normalizer ns
    (∀ p,
      n.normalize env (n.normalize env p) =
        n.normalize env p) ↔
      ∀ g m, m ≠ "" →
        PredicateNormalizer.Keeps env
            (resolveNamespaceGroups predicates ns).entries g m →
          PredicateNormalizer.Keeps env
            (resolveNamespaceGroups predicates ns).entries g
            (PredicateNormalizer.textNormalize env g.1) := by
  rw [MemoryService.normalizer_fromPredicates]
  exact PredicateNormalizer.normalize_idempotent_iff env _
    hIdempotent hEmpty hNames

/- One group of synonyms, and one that takes a name. -/
private def dependencies : Groups :=
  KeyMap.empty.insert "depends_on" ["uses", "depends-on"]

/- A name that is a member of another group. -/
private def overlapping : Groups :=
  (KeyMap.empty.insert "cites" ["quotes"]).insert "about"
    ["cites"]

/- A configuration for which it is. -/
theorem predicate_normalization_idempotent_depends_on :
    let n :=
      (MemoryService.fromPredicates Env.plain
        MemoryService.plain.config
        ⟨dependencies, .empty⟩).normalizer "default"
    ∀ p,
      n.normalize Env.plain (n.normalize Env.plain p) =
        n.normalize Env.plain p := by
  refine (predicate_normalization_idempotent_iff Env.plain
    MemoryService.plain.config ⟨dependencies, .empty⟩ "default"
    plain_idempotent (fun _ hText => Env.jaroWinkler_plain_empty hText)
    (by decide +kernel)).mpr ?_
  intro g m hText hKeeps
  have hEntries :
      (resolveNamespaceGroups ⟨dependencies, .empty⟩
        "default").entries =
          [("depends_on", ["uses", "depends-on"])] := by
    decide +kernel
  have hMem := hKeeps.mem
  rw [hEntries, List.mem_singleton] at hMem
  rw [hMem]
  decide +kernel

/- So for accepted configurations it is not in general. -/
theorem predicate_normalization_not_idempotent :
    ¬ ∀ cfg, Config.Accepted cfg → ∀ ns,
      let n :=
        (MemoryService.fromPredicates Env.plain
          MemoryService.plain.config
          cfg.predicates).normalizer ns
      ∀ p,
        n.normalize Env.plain (n.normalize Env.plain p) =
          n.normalize Env.plain p := by
  intro hAll
  have hQuotes :=
    hAll _ (Config.accepted_groups overlapping) "default"
      "quotes"
  revert hQuotes
  decide +kernel

end Core

end Ferrex
