import Mathlib.Tactic.MkIffOfInductiveProp
import Ferrex.Lib.Json
import Ferrex.Core.Pipeline
import Ferrex.Core.Config

/-
  The parts of a configuration as JSON values, and when two
  parts have one value.  A float that is not finite is
  written as null, and so are all of them.

  Main declarations:
    * `FloatFormat`, `FloatFormat.toValue_eq_iff`
    * `ConfigFloat.format`
    * `KeyMap.Rel`, `KeyMap.toValue_eq_iff`
    * `PredicatesConfig.toValue_eq_iff`
    * `StalenessConfig.toValue_eq_iff`
-/

------------------------------------------------------------
-- Floats
------------------------------------------------------------

namespace Ferrex

namespace Core

open Store

/- The texts of floats: finite ones are told apart. -/
structure FloatFormat (F : Type) where
  isFinite : F → Bool
  number : F → JsonNumber
  number_inj :
    ∀ x y, isFinite x = true → isFinite y = true →
      number x = number y → x = y

namespace FloatFormat

variable {F : Type}
variable {x y : F}

/-
  A float as the serializer writes it, null if not finite.
-/
def toValue (format : FloatFormat F) (x : F) : Json :=
  if format.isFinite x then .num (format.number x) else .null

/- Equal, or neither of them finite. -/
def Alike (format : FloatFormat F) (x y : F) : Prop :=
  x = y ∨
    (format.isFinite x = false ∧ format.isFinite y = false)

/- Two floats are written alike just when they are alike. -/
theorem toValue_eq_iff
    (format : FloatFormat F) :
    format.toValue x = format.toValue y ↔
      format.Alike x y := by
  unfold toValue Alike
  by_cases hEq : x = y
  · simp [hEq]
  cases hx : format.isFinite x <;>
    cases hy : format.isFinite y <;> simp [hEq]
  -- Both are finite, and their texts tell them apart.
  exact fun h => hEq (format.number_inj x y hx hy h)

end FloatFormat

namespace ConfigFloat

/- A whole number ends in a zero, others name their parts. -/
def fraction (den : Nat) : List Char :=
  if den = 1 then ['.', '0']
  else 'e' :: '-' :: Nat.toDigits 10 den

/- A number without its sign, by both of its parts. -/
def magnitude (x : Rat) : List Char :=
  Nat.toDigits 10 x.num.natAbs ++ fraction x.den

/- The text of a number, with a sign if it is negative. -/
def text (x : Rat) : List Char :=
  if x.num < 0 then '-' :: magnitude x else magnitude x

/- Numerators are written in digits. -/
theorem isDigit_of_mem
    {n : Nat} {c : Char}
    (hMem : c ∈ Nat.toDigits 10 n) : c.isDigit = true :=
  Nat.isDigit_of_mem_toDigits (by decide) (by decide) hMem

/- The denominator is known from what follows. -/
theorem fraction_inj
    {m n : Nat}
    (h : fraction m = fraction n) : m = n := by
  unfold fraction at h
  split at h <;> split at h
  · omega
  · cases h
  · cases h
  · exact JsonNumber.toDigits_inj
      (List.cons.inj (List.cons.inj h).2).2

/- The digits of the numerator end there. -/
theorem ends_fraction (den : Nat) :
    Json.Ends Char.isDigit (fraction den) := by
  unfold fraction
  split <;> exact Json.ends_cons rfl

/- A text without a sign tells both parts of the number. -/
theorem magnitude_inj
    {x y : Rat}
    (h : magnitude x = magnitude y) :
    x.num.natAbs = y.num.natAbs ∧ x.den = y.den := by
  obtain ⟨hDigits, hFraction⟩ := Json.run_inj
    (fun _ => isDigit_of_mem) (fun _ => isDigit_of_mem)
    (ends_fraction _) (ends_fraction _) h
  exact ⟨JsonNumber.toDigits_inj hDigits,
    fraction_inj hFraction⟩

/- The sign tells a negative number from the others. -/
theorem magnitude_ne
    (x : Rat)
    (r : List Char) : '-' :: r ≠ magnitude x := by
  intro h
  unfold magnitude at h
  rcases List.exists_cons_of_ne_nil
    (Nat.toDigits_ne_nil (b := 10) (n := x.num.natAbs)) with
    ⟨c, cs, hDigits⟩
  rw [hDigits] at h
  have hDigit : c.isDigit = true :=
    isDigit_of_mem (by rw [hDigits]; exact List.mem_cons_self)
  rw [← (List.cons.inj h).1] at hDigit
  cases hDigit

/- No two numbers have the same text. -/
theorem text_inj
    {x y : Rat}
    (h : text x = text y) : x = y := by
  unfold text at h
  split at h <;> split at h
  · rcases magnitude_inj (List.cons.inj h).2 with ⟨hNum, hDen⟩
    exact Rat.ext (by omega) hDen
  · exact absurd h (magnitude_ne y _)
  · exact absurd h.symm (magnitude_ne x _)
  · rcases magnitude_inj h with ⟨hNum, hDen⟩
    exact Rat.ext (by omega) hDen

/- The text is of characters that a numeral may have. -/
theorem numeral_text
    {x : Rat} {c : Char}
    (hMem : c ∈ text x) : Json.numeral c = true := by
  have hDigits :
      ∀ n, c ∈ Nat.toDigits 10 n → Json.numeral c = true := by
    intro n hDigit
    simp [Json.numeral, isDigit_of_mem hDigit]
  have hFraction :
      c ∈ fraction x.den → Json.numeral c = true := by
    unfold fraction
    split
    · intro hPart
      fin_cases hPart <;> decide
    · intro hPart
      rcases List.mem_cons.mp hPart with rfl | hPart
      · decide
      rcases List.mem_cons.mp hPart with rfl | hPart
      · decide
      exact hDigits _ hPart
  have hMagnitude :
      c ∈ magnitude x → Json.numeral c = true := by
    intro hPart
    rcases List.mem_append.mp hPart with hPart | hPart
    · exact hDigits _ hPart
    · exact hFraction hPart
  unfold text at hMem
  split at hMem
  · rcases List.mem_cons.mp hMem with rfl | hPart
    · decide
    · exact hMagnitude hPart
  · exact hMagnitude hMem

/- The text of a number, as a numeral of JSON. -/
def number (x : Rat) : JsonNumber where
  text := text x
  nonempty := by
    unfold text
    split
    · exact List.cons_ne_nil _ _
    · exact List.append_ne_nil_of_left_ne_nil
        Nat.toDigits_ne_nil _
  numerals _ := numeral_text

/- The 32- and the 64-bit floats of the file. -/
def format : FloatFormat ConfigFloat where
  isFinite := isFinite
  number
  | .finite x => number x
  | _ => number 0
  number_inj := by
    intro x y hx hy h
    cases x <;> cases hx
    cases y <;> cases hy
    rw [text_inj (congrArg JsonNumber.text h)]

end ConfigFloat

------------------------------------------------------------
-- Maps
------------------------------------------------------------

namespace KeyMap

variable {V : Type}
variable {m m' : KeyMap V}

/- Related values under the same keys, in any order. -/
def Rel (R : V → V → Prop) (m m' : KeyMap V) : Prop :=
  ∀ k, Option.Rel R (m.get k) (m'.get k)

/- Values are mapped key by key. -/
theorem get_map
    {W : Type}
    (f : V → W)
    (m : KeyMap V)
    (k : String) :
    (m.map f).get k = (m.get k).map f := by
  apply Option.ext
  intro w
  rw [get_eq_some_iff, Option.map_eq_some_iff]
  simp [map, get_eq_some_iff]

/- An object says what is under each key. -/
theorem object_eq_iff
    {m m' : KeyMap Json} :
    Json.object m.entries = Json.object m'.entries ↔
      ∀ k, m.get k = m'.get k := by
  constructor
  · intro h k
    apply Option.ext
    intro v
    rw [get_eq_some_iff, get_eq_some_iff]
    exact (Json.perm_of_object h).mem_iff
  · intro h
    apply Json.object_of_perm m.unique
    apply (List.perm_ext_iff_of_nodup
      m.unique.of_map m'.unique.of_map).mpr
    rintro ⟨k, v⟩
    rw [← get_eq_some_iff, ← get_eq_some_iff, h]

/- A map is written as an object. -/
def toValue (f : V → Json) (m : KeyMap V) : Json :=
  Json.object (m.map f).entries

/-
  Maps are written alike when they are related key by key.
-/
theorem toValue_eq_iff
    {f : V → Json} {R : V → V → Prop}
    (hValue : ∀ v w, f v = f w ↔ R v w) :
    m.toValue f = m'.toValue f ↔ m.Rel R m' := by
  unfold toValue Rel
  rw [object_eq_iff]
  apply forall_congr'
  intro k
  rw [get_map, get_map]
  cases m.get k <;> cases m'.get k <;> simp [hValue]

end KeyMap

------------------------------------------------------------
-- Predicates
------------------------------------------------------------

/- A group is written as the list of its synonyms. -/
def Groups.toValue (groups : Groups) : Json :=
  KeyMap.toValue (fun members => .arr (members.map .str)) groups

/- A namespace is written as its groups. -/
def NamespacePredicatesConfig.toValue
    (config : NamespacePredicatesConfig) : Json :=
  Json.object [("groups", Groups.toValue config.groups)]

/- The groups of all namespaces, and of each of them. -/
def PredicatesConfig.toValue (config : PredicatesConfig) : Json :=
  Json.object
    [("groups", Groups.toValue config.groups),
      ("namespaces",
        config.namespaces.toValue
          NamespacePredicatesConfig.toValue)]

/- The same groups, for all and for each namespace. -/
@[mk_iff] structure PredicatesConfig.Same
    (config config' : PredicatesConfig) : Prop where
  groups : config.groups.Rel Eq config'.groups
  namespaces :
    config.namespaces.Rel
      (fun c c' => c.groups.Rel Eq c'.groups)
      config'.namespaces

/- Groups that are written alike are the same groups. -/
theorem Groups.toValue_eq_iff
    {groups groups' : Groups} :
    Groups.toValue groups = Groups.toValue groups' ↔
      groups.Rel Eq groups' := by
  apply KeyMap.toValue_eq_iff
  intro members members'
  rw [Json.arr.injEq]
  exact (List.map_injective_iff.mpr
    (fun s s' h => Json.str.inj h)).eq_iff

/- Groups of a namespace that are written alike agree. -/
theorem NamespacePredicatesConfig.toValue_eq_iff
    {config config' : NamespacePredicatesConfig} :
    config.toValue = config'.toValue ↔
      config.groups.Rel Eq config'.groups := by
  unfold NamespacePredicatesConfig.toValue
  refine Iff.trans
    (Json.object_eq_iff (by simp [Table.KeyUnique]) rfl) ?_
  simp [Groups.toValue_eq_iff]

/-
  The predicates are known from the way they are written.
-/
theorem PredicatesConfig.toValue_eq_iff
    {config config' : PredicatesConfig} :
    config.toValue = config'.toValue ↔ config.Same config' := by
  unfold PredicatesConfig.toValue
  refine Iff.trans
    (Json.object_eq_iff (by simp [Table.KeyUnique]) rfl) ?_
  simp [PredicatesConfig.same_iff, Groups.toValue_eq_iff,
    KeyMap.toValue_eq_iff
      (fun _ _ => NamespacePredicatesConfig.toValue_eq_iff)]

------------------------------------------------------------
-- Thresholds and Limits
------------------------------------------------------------

section Thresholds

variable {F : Type}

/- The threshold of the deduplication, as it is written. -/
def DedupConfig.toValue
    (format : FloatFormat F)
    (config : DedupConfig F) : Json :=
  Json.object [("threshold", format.toValue config.threshold)]

/-
  Both thresholds of the conflict check, as they are
  written.
-/
def ConflictConfig.toValue
    (format : FloatFormat F)
    (config : ConflictConfig F) : Json :=
  Json.object
    [("object_fuzzy_duplicate",
        format.toValue config.objectFuzzyDuplicate),
      ("object_fuzzy_update",
        format.toValue config.objectFuzzyUpdate)]

/- The floats of one are related to those of the other. -/
def DedupConfig.Rel
    (R : F → F → Prop)
    (config config' : DedupConfig F) : Prop :=
  R config.threshold config'.threshold

/- Two conflict configurations, threshold by threshold. -/
@[mk_iff] structure ConflictConfig.Rel
    (R : F → F → Prop)
    (config config' : ConflictConfig F) : Prop where
  objectFuzzyDuplicate :
    R config.objectFuzzyDuplicate config'.objectFuzzyDuplicate
  objectFuzzyUpdate :
    R config.objectFuzzyUpdate config'.objectFuzzyUpdate

/-
  They are written alike when their thresholds are alike.
-/
theorem DedupConfig.toValue_eq_iff
    {format : FloatFormat F} {config config' : DedupConfig F} :
    config.toValue format = config'.toValue format ↔
      config.Rel format.Alike config' := by
  refine Iff.trans
    (Json.object_eq_iff (by simp [Table.KeyUnique]) rfl) ?_
  simp [format.toValue_eq_iff, DedupConfig.Rel]

/- Conflict checks that are written alike agree. -/
theorem ConflictConfig.toValue_eq_iff
    {format : FloatFormat F} {config config' : ConflictConfig F} :
    config.toValue format = config'.toValue format ↔
      config.Rel format.Alike config' := by
  refine Iff.trans
    (Json.object_eq_iff (by simp [Table.KeyUnique]) rfl) ?_
  simp [format.toValue_eq_iff, ConflictConfig.rel_iff]

/- A relation of floats that implies another one. -/
theorem DedupConfig.Rel.mono
    {R Q : F → F → Prop} {config config' : DedupConfig F}
    (hSub : ∀ x y, R x y → Q x y)
    (h : config.Rel R config') : config.Rel Q config' :=
  hSub _ _ h

/- A weaker relation of floats is one of conflict checks. -/
theorem ConflictConfig.Rel.mono
    {R Q : F → F → Prop} {config config' : ConflictConfig F}
    (hSub : ∀ x y, R x y → Q x y)
    (h : config.Rel R config') : config.Rel Q config' where
  objectFuzzyDuplicate := hSub _ _ h.objectFuzzyDuplicate
  objectFuzzyUpdate := hSub _ _ h.objectFuzzyUpdate

end Thresholds

/- A whole number, and one that may be missing. -/
def natural (n : Nat) : Json :=
  .num (JsonNumber.ofNat n)

/-
  Natural numbers are known from the way they are written.
-/
theorem natural_inj
    {m n : Nat} :
    natural m = natural n ↔ m = n :=
  ⟨fun h => JsonNumber.ofNat_inj (Json.num.inj h),
    congrArg natural⟩

/-
  The intervals and limits of the audit, as they are
  written.
-/
def ReconciliationConfig.toValue
    (config : ReconciliationConfig) : Json :=
  Json.object
    [("audit_interval_hours",
        Json.optional natural config.auditIntervalHours),
      ("audit_fix_limit", natural config.auditFixLimit)]

/- The two capacities, as they are written. -/
def CacheConfig.toValue (config : CacheConfig) : Json :=
  Json.object
    [("embedding_capacity", natural config.embeddingCapacity),
      ("result_capacity", natural config.resultCapacity)]

/- Numbers are written exactly, so the records are equal. -/
theorem ReconciliationConfig.toValue_eq_iff
    {config config' : ReconciliationConfig} :
    config.toValue = config'.toValue ↔ config = config' := by
  refine Iff.trans
    (Json.object_eq_iff (by simp [Table.KeyUnique]) rfl) ?_
  have hOptional :
      Json.optional natural config.auditIntervalHours =
          Json.optional natural config'.auditIntervalHours ↔
        config.auditIntervalHours = config'.auditIntervalHours :=
    Json.optional_inj (fun _ _ h => natural_inj.mp h)
      (fun _ h => Json.noConfusion h)
  cases config
  cases config'
  simp [hOptional, natural_inj]

/- Capacities that are written alike are the same. -/
theorem CacheConfig.toValue_eq_iff
    {config config' : CacheConfig} :
    config.toValue = config'.toValue ↔ config = config' := by
  refine Iff.trans
    (Json.object_eq_iff (by simp [Table.KeyUnique]) rfl) ?_
  cases config
  cases config'
  simp [natural_inj]

------------------------------------------------------------
-- Staleness
------------------------------------------------------------

section Staleness

variable {D : Type}

/- The four weights, in the order of their fields. -/
def StalenessWeights.toValue
    (format : FloatFormat D)
    (weights : StalenessWeights D) : Json :=
  Json.object
    [("age", format.toValue weights.age),
      ("access", format.toValue weights.access),
      ("validated", format.toValue weights.validated),
      ("count", format.toValue weights.count)]

/- What a type of memory has of its own. -/
def TypeStalenessConfig.toValue
    (format : FloatFormat D)
    (config : TypeStalenessConfig D) : Json :=
  Json.object
    [("half_life_days", format.toValue config.halfLifeDays),
      ("stale_threshold", format.toValue config.staleThreshold)]

/- One of the orders that the map of types is iterated in. -/
structure TypeOrder where
  types : List MemoryType
  perm : types.Perm [.episodic, .semantic, .procedural]

/- The types come in the order that the map of them has. -/
def StalenessConfig.toValue
    (format : FloatFormat D)
    (order : TypeOrder)
    (config : StalenessConfig D) : Json :=
  Json.object
    [("weights", config.weights.toValue format),
      ("count_scale", format.toValue config.countScale),
      ("type_config",
        Json.object
          (order.types.map (fun ty =>
            (ty.asStr, (config.typeConfig ty).toValue format))))]

/- Two sets of weights, weight by weight. -/
@[mk_iff] structure StalenessWeights.Rel
    (R : D → D → Prop)
    (weights weights' : StalenessWeights D) : Prop where
  age : R weights.age weights'.age
  access : R weights.access weights'.access
  validated : R weights.validated weights'.validated
  count : R weights.count weights'.count

/- What a type has of its own, field by field. -/
@[mk_iff] structure TypeStalenessConfig.Rel
    (R : D → D → Prop)
    (config config' : TypeStalenessConfig D) : Prop where
  halfLifeDays : R config.halfLifeDays config'.halfLifeDays
  staleThreshold : R config.staleThreshold config'.staleThreshold

/- Two staleness configurations, field by field. -/
@[mk_iff] structure StalenessConfig.Rel
    (R : D → D → Prop)
    (config config' : StalenessConfig D) : Prop where
  weights : config.weights.Rel R config'.weights
  countScale : R config.countScale config'.countScale
  typeConfig :
    ∀ ty, (config.typeConfig ty).Rel R (config'.typeConfig ty)

variable {format : FloatFormat D}

/- Weights are written alike when each of them is. -/
theorem StalenessWeights.toValue_eq_iff
    {weights weights' : StalenessWeights D} :
    weights.toValue format = weights'.toValue format ↔
      weights.Rel format.Alike weights' := by
  refine Iff.trans
    (Json.object_eq_iff (by simp [Table.KeyUnique]) rfl) ?_
  simp [format.toValue_eq_iff, StalenessWeights.rel_iff]

/- What a type has of its own is known by its writing. -/
theorem TypeStalenessConfig.toValue_eq_iff
    {config config' : TypeStalenessConfig D} :
    config.toValue format = config'.toValue format ↔
      config.Rel format.Alike config' := by
  refine Iff.trans
    (Json.object_eq_iff (by simp [Table.KeyUnique]) rfl) ?_
  simp [format.toValue_eq_iff, TypeStalenessConfig.rel_iff]

/- The object of the types does not depend on their order. -/
theorem object_types
    (order : TypeOrder)
    (value : MemoryType → Json) :
    Json.object
        (order.types.map (fun ty => (ty.asStr, value ty))) =
      Json.object
        [("episodic", value .episodic),
          ("semantic", value .semantic),
          ("procedural", value .procedural)] := by
  have hPerm :=
    order.perm.map (fun ty => (ty.asStr, value ty))
  refine (Json.object_of_perm ?_ hPerm.symm).symm
  simp [Table.KeyUnique, MemoryType.asStr]

/- Each type is written once, so that its value is known. -/
theorem object_types_eq_iff
    {order order' : TypeOrder}
    {value value' : MemoryType → Json} :
    Json.object
          (order.types.map (fun ty => (ty.asStr, value ty))) =
        Json.object
          (order'.types.map (fun ty => (ty.asStr, value' ty))) ↔
      ∀ ty, value ty = value' ty := by
  rw [object_types, object_types]
  refine Iff.trans
    (Json.object_eq_iff (by simp [Table.KeyUnique]) rfl) ?_
  simp only [List.cons.injEq, Prod.mk.injEq, true_and, and_true]
  constructor
  · rintro ⟨hEpisodic, hSemantic, hProcedural⟩ ty
    cases ty <;> assumption
  · exact fun h => ⟨h _, h _, h _⟩

/- The orders of the two maps of types do not count. -/
theorem StalenessConfig.toValue_eq_iff
    {order order' : TypeOrder}
    {config config' : StalenessConfig D} :
    config.toValue format order = config'.toValue format order' ↔
      config.Rel format.Alike config' := by
  refine Iff.trans
    (Json.object_eq_iff (by simp [Table.KeyUnique]) rfl) ?_
  simp [format.toValue_eq_iff, object_types_eq_iff,
    StalenessWeights.toValue_eq_iff,
    TypeStalenessConfig.toValue_eq_iff, StalenessConfig.rel_iff]

/- A relation of floats that implies another one. -/
theorem StalenessConfig.Rel.mono
    {R Q : D → D → Prop} {config config' : StalenessConfig D}
    (hSub : ∀ x y, R x y → Q x y)
    (h : config.Rel R config') : config.Rel Q config' where
  weights :=
    { age := hSub _ _ h.weights.age
      access := hSub _ _ h.weights.access
      validated := hSub _ _ h.weights.validated
      count := hSub _ _ h.weights.count }
  countScale := hSub _ _ h.countScale
  typeConfig ty :=
    { halfLifeDays := hSub _ _ (h.typeConfig ty).halfLifeDays
      staleThreshold :=
        hSub _ _ (h.typeConfig ty).staleThreshold }

end Staleness

end Core

end Ferrex
