import Ferrex.Core.Cache
import Ferrex.Core.Staleness

/-
  The configuration file: what it may leave out, the values
  that stand in for it, the overrides of a namespace, and the
  checks that a loaded configuration has to pass.

  Main declarations:
    * `KeyMap`, `ConfigFloat`
    * `FileConfig`, `LoadedConfig`, `Config.resolve`
    * `resolveNamespaceGroups`
    * `Config.validate`, `Config.loadOrInit`
    * `Config.Accepted`
-/

------------------------------------------------------------
-- Maps
------------------------------------------------------------

namespace Ferrex

namespace Core

open Store

/- A map from texts, as a table with unique keys. -/
structure KeyMap (V : Type) where
  entries : List (String × V)
  unique : Table.KeyUnique Prod.fst entries

namespace KeyMap

variable {V W : Type}
variable {m : KeyMap V} {k : String} {v : V}

/- A map with no keys. -/
def empty : KeyMap V where
  entries := []
  unique := List.nodup_nil

/- The value of a key, if it has one. -/
def get (m : KeyMap V) (k : String) : Option V :=
  m.entries.lookup k

/- A key that is there gets its new value in place. -/
def insert (m : KeyMap V) (k : String) (v : V) : KeyMap V where
  entries := Table.upsert Prod.fst (k, v) m.entries
  unique := m.unique.upsert

/- A key that is not there is left alone. -/
def remove (m : KeyMap V) (k : String) : KeyMap V where
  entries := Table.delete (fun e => e.1 = k) m.entries
  unique := m.unique.delete

/- The values change, and the keys stay. -/
def map (f : V → W) (m : KeyMap V) : KeyMap W where
  entries := m.entries.map (fun e => (e.1, f e.2))
  unique := by
    have hSame :
        (m.entries.map (fun e => (e.1, f e.2))).map Prod.fst =
          m.entries.map Prod.fst := by
      rw [List.map_map]
      rfl
    unfold Table.KeyUnique
    rw [hSame]
    exact m.unique

/- Lookups in a list of entries with unique keys. -/
theorem lookup_eq_some_iff
    {entries : List (String × V)}
    (hUnique : Table.KeyUnique Prod.fst entries) :
    entries.lookup k = some v ↔ (k, v) ∈ entries := by
  induction entries with
  | nil => simp
  | cons e entries ih =>
      have hNodup := List.nodup_cons.mp hUnique
      rw [List.lookup_cons]
      by_cases hKey : k = e.1
      · subst hKey
        simp only [BEq.rfl]
        constructor
        · intro h
          rw [← Option.some.inj h]
          exact List.mem_cons_self
        · intro h
          rcases List.mem_cons.mp h with h | h
          · rw [← h]
          · exact absurd (List.mem_map_of_mem h) hNodup.1
      · rw [beq_false_of_ne hKey]
        simp only [List.mem_cons]
        rw [ih hNodup.2]
        constructor
        · exact Or.inr
        · rintro (h | h)
          · rw [← h] at hKey
            exact absurd rfl hKey
          · exact h

/- A key has the value that an entry gives it. -/
theorem get_eq_some_iff :
    m.get k = some v ↔ (k, v) ∈ m.entries :=
  lookup_eq_some_iff m.unique

@[simp] theorem get_empty : (empty : KeyMap V).get k = none :=
  rfl

/- An insertion is seen at its own key. -/
theorem get_insert
    (m : KeyMap V)
    (k k' : String)
    (v : V) :
    (m.insert k v).get k' =
      if k' = k then some v else m.get k' := by
  apply Option.ext
  intro w
  rw [get_eq_some_iff]
  by_cases hKey : k' = k
  · rw [if_pos hKey]
    simp [insert, hKey, eq_comm]
  · rw [if_neg hKey, get_eq_some_iff]
    simp [insert, hKey]

/- A key that is removed has no value. -/
theorem get_remove
    (m : KeyMap V)
    (k k' : String) :
    (m.remove k).get k' =
      if k' = k then none else m.get k' := by
  apply Option.ext
  intro w
  rw [get_eq_some_iff]
  by_cases hKey : k' = k
  · simp [remove, hKey]
  · rw [if_neg hKey, get_eq_some_iff]
    simp [remove, hKey]

end KeyMap

------------------------------------------------------------
-- Predicate Groups
------------------------------------------------------------

/- Synonyms by the canonical name of their group. -/
abbrev Groups := KeyMap (List String)

/- The groups of one namespace. -/
structure NamespacePredicatesConfig where
  groups : Groups

/- The common groups, and those of namespaces. -/
structure PredicatesConfig where
  groups : Groups
  namespaces : KeyMap NamespacePredicatesConfig

/- An empty list takes a group away. -/
def overrideGroup
    (merged : Groups)
    (group : String × List String) : Groups :=
  if group.2.isEmpty then
    merged.remove group.1
  else
    merged.insert group.1 group.2

/- A namespace goes through its own groups in order. -/
def resolveNamespaceGroups
    (predicates : PredicatesConfig)
    (ns : String) : Groups :=
  match predicates.namespaces.get ns with
  | some config =>
      config.groups.entries.foldl overrideGroup
        predicates.groups
  | none => predicates.groups

------------------------------------------------------------
-- Floats
------------------------------------------------------------

/- A number of the file, or one that is not finite. -/
inductive ConfigFloat where
| finite (x : Rat)
| infinite (negative : Bool)
| nan
deriving DecidableEq

namespace ConfigFloat

/- A comparison with zero, which no NaN passes. -/
def isPositive : ConfigFloat → Bool
| .finite x => decide (0 < x)
| .infinite negative => !negative
| .nan => false

def isFinite : ConfigFloat → Bool
| .finite _ => true
| _ => false

end ConfigFloat

/- The same configuration with its floats read otherwise. -/
def StalenessConfig.map
    {D E : Type}
    (f : D → E)
    (config : StalenessConfig D) : StalenessConfig E where
  weights :=
    { age := f config.weights.age
      access := f config.weights.access
      validated := f config.weights.validated
      count := f config.weights.count }
  countScale := f config.countScale
  typeConfig ty :=
    { halfLifeDays := f (config.typeConfig ty).halfLifeDays
      staleThreshold :=
        f (config.typeConfig ty).staleThreshold }

------------------------------------------------------------
-- The File
------------------------------------------------------------

/- The deduplication section of the file. -/
structure DedupFile where
  threshold : Option ConfigFloat

/- The conflict section of the file. -/
structure ConflictFile where
  objectFuzzyDuplicate : Option ConfigFloat
  objectFuzzyUpdate : Option ConfigFloat

/- The predicates section, of the file or of a namespace. -/
structure PredicatesFile where
  groups : Groups

/- What a namespace may have of its own. -/
structure NamespaceFile where
  predicates : PredicatesFile

/- The cache section of the file. -/
structure CacheFile where
  embeddingCapacity : Option Nat
  resultCapacity : Option Nat

/- The reconciliation section of the file. -/
structure ReconciliationFile where
  auditIntervalHours : Option Nat
  auditFixLimit : Option Nat
  readerPoolSize : Option Nat

/- What the file may say of a type of memory. -/
structure TypeStalenessFile where
  halfLifeDays : Option ConfigFloat
  staleThreshold : Option ConfigFloat

/- The staleness section of the file. -/
structure StalenessFile where
  weightAge : Option ConfigFloat
  weightAccess : Option ConfigFloat
  weightValidated : Option ConfigFloat
  weightCount : Option ConfigFloat
  countScale : Option ConfigFloat
  episodic : Option TypeStalenessFile
  semantic : Option TypeStalenessFile
  procedural : Option TypeStalenessFile

/- A file, with a section for each part. -/
structure FileConfig where
  deduplication : DedupFile
  conflict : ConflictFile
  predicates : PredicatesFile
  namespaces : KeyMap NamespaceFile
  reconciliation : ReconciliationFile
  staleness : StalenessFile
  readerPoolSize : Option Nat
  cache : CacheFile

/- A file that says nothing. -/
def FileConfig.default : FileConfig where
  deduplication := ⟨none⟩
  conflict := ⟨none, none⟩
  predicates := ⟨.empty⟩
  namespaces := .empty
  reconciliation := ⟨none, none, none⟩
  staleness := ⟨none, none, none, none, none, none, none, none⟩
  readerPoolSize := none
  cache := ⟨none, none⟩

/- How often the audit runs, and what it may fix. -/
structure ReconciliationConfig where
  auditIntervalHours : Option Nat
  auditFixLimit : Nat

/- A configuration with nothing left out. -/
structure LoadedConfig where
  deduplication : DedupConfig ConfigFloat
  conflict : ConflictConfig ConfigFloat
  predicates : PredicatesConfig
  reconciliation : ReconciliationConfig
  staleness : StalenessConfig ConfigFloat
  readerPoolSize : Nat
  cache : CacheConfig

namespace Config

def defaultReaderPoolSize : Nat := 4

/- What the file says of a type. -/
def StalenessFile.ofType
    (file : StalenessFile) : MemoryType → Option TypeStalenessFile
| .episodic => file.episodic
| .semantic => file.semantic
| .procedural => file.procedural

/- A field that the file has replaces the default. -/
def applyTypeOverride
    (entry : TypeStalenessConfig ConfigFloat)
    (ovr : TypeStalenessFile) : TypeStalenessConfig ConfigFloat where
  halfLifeDays := ovr.halfLifeDays.getD entry.halfLifeDays
  staleThreshold := ovr.staleThreshold.getD entry.staleThreshold

/- Each weight and each type on its own. -/
def resolveStaleness
    (file : StalenessFile)
    (defaults : StalenessConfig ConfigFloat) :
    StalenessConfig ConfigFloat where
  weights :=
    { age := file.weightAge.getD defaults.weights.age
      access := file.weightAccess.getD defaults.weights.access
      validated :=
        file.weightValidated.getD defaults.weights.validated
      count := file.weightCount.getD defaults.weights.count }
  countScale := file.countScale.getD defaults.countScale
  typeConfig ty :=
    match StalenessFile.ofType file ty with
    | some ovr => applyTypeOverride (defaults.typeConfig ty) ovr
    | none => defaults.typeConfig ty

/- 0.95 and 0.50, as 32-bit floats. -/
def resolve (file : FileConfig) : LoadedConfig where
  deduplication :=
    ⟨file.deduplication.threshold.getD
      (.finite (15938355 / 16777216))⟩
  conflict :=
    { objectFuzzyDuplicate :=
        file.conflict.objectFuzzyDuplicate.getD
          (.finite (15938355 / 16777216))
      objectFuzzyUpdate :=
        file.conflict.objectFuzzyUpdate.getD
          (.finite (1 / 2)) }
  predicates :=
    { groups := file.predicates.groups
      namespaces :=
        file.namespaces.map (fun nsf => ⟨nsf.predicates.groups⟩) }
  reconciliation :=
    { auditIntervalHours :=
        file.reconciliation.auditIntervalHours
      auditFixLimit :=
        file.reconciliation.auditFixLimit.getD 1000 }
  staleness :=
    resolveStaleness file.staleness
      (StalenessConfig.default.map .finite)
  readerPoolSize :=
    (file.readerPoolSize.or
      file.reconciliation.readerPoolSize).getD
        defaultReaderPoolSize
  cache :=
    { embeddingCapacity := file.cache.embeddingCapacity.getD 256
      resultCapacity := file.cache.resultCapacity.getD 128 }

------------------------------------------------------------
-- Validation and Loading
------------------------------------------------------------

/- Why a configuration is not loaded. -/
inductive ConfigError where
| io (message : String)
| parse (message : String)
| invalid (message : String)
deriving DecidableEq

/- A half-life has to be a positive number. -/
def checkHalfLife
    (staleness : StalenessConfig ConfigFloat)
    (ty : MemoryType) : Except ConfigError Unit :=
  let halfLife := (staleness.typeConfig ty).halfLifeDays
  if halfLife.isFinite && halfLife.isPositive then
    .ok ()
  else
    .error (.invalid
      s!"staleness.{ty.asStr}.half_life_days must be a positive number")

/- The types are checked in one of the orders of the map. -/
def validate (cfg : LoadedConfig) : Except ConfigError Unit := do
  if cfg.cache.embeddingCapacity = 0 then
    throw (.invalid
      "cache.embedding_capacity must be at least 1")
  if cfg.cache.resultCapacity = 0 then
    throw (.invalid
      "cache.result_capacity must be at least 1")
  checkHalfLife cfg.staleness .episodic
  checkHalfLife cfg.staleness .semantic
  checkHalfLife cfg.staleness .procedural

/- What reading the file gives. -/
inductive FileRead where
| contents (raw : String)
| notFound
| failed (error : String)

/- On the first run the baseline is written and used. -/
def readOrInit
    (read : FileRead)
    (write : Except String Unit)
    (baseline : String) : Except ConfigError String :=
  match read, write with
  | .contents raw, _ => .ok raw
  | .notFound, .ok () => .ok baseline
  | .notFound, .error error => .error (.io error)
  | .failed error, _ => .error (.io error)

/- A text that is no configuration is an error. -/
def parse
    (toml : String → Except String FileConfig)
    (raw : String) : Except ConfigError FileConfig :=
  match toml raw with
  | .ok file => .ok file
  | .error message => .error (.parse message)

/- `toml` is the parser, `write` what writing the file gives. -/
def loadOrInit
    (toml : String → Except String FileConfig)
    (read : FileRead)
    (write : Except String Unit)
    (baseline : String) : Except ConfigError LoadedConfig := do
  let raw ← readOrInit read write baseline
  let file ← parse toml raw
  let loaded := resolve file
  validate loaded
  return loaded

------------------------------------------------------------
-- Accepted Configurations
------------------------------------------------------------

/- The check passes for positive numbers only. -/
private theorem checkHalfLife_eq_ok_iff
    {staleness : StalenessConfig ConfigFloat}
    {ty : MemoryType} :
    checkHalfLife staleness ty = .ok () ↔
      ∃ x, (staleness.typeConfig ty).halfLifeDays = .finite x ∧
        0 < x := by
  unfold checkHalfLife
  cases (staleness.typeConfig ty).halfLifeDays with
  | finite x =>
      simp [ConfigFloat.isFinite, ConfigFloat.isPositive]
  | infinite negative => simp [ConfigFloat.isFinite]
  | nan => simp [ConfigFloat.isFinite]

/- What the checks let through. -/
theorem validate_eq_ok_iff
    {cfg : LoadedConfig} :
    validate cfg = .ok () ↔
      cfg.cache.embeddingCapacity ≠ 0 ∧
        cfg.cache.resultCapacity ≠ 0 ∧
        ∀ ty, ∃ x,
          (cfg.staleness.typeConfig ty).halfLifeDays =
              .finite x ∧ 0 < x := by
  have hTypes :
      (∀ ty, ∃ x,
          (cfg.staleness.typeConfig ty).halfLifeDays =
              .finite x ∧ 0 < x) ↔
        checkHalfLife cfg.staleness .episodic = .ok () ∧
          checkHalfLife cfg.staleness .semantic = .ok () ∧
          checkHalfLife cfg.staleness .procedural = .ok () := by
    simp only [checkHalfLife_eq_ok_iff]
    constructor
    · exact fun h => ⟨h _, h _, h _⟩
    · rintro ⟨hEpisodic, hSemantic, hProcedural⟩ ty
      cases ty <;> assumption
  rw [hTypes]
  unfold validate
  simp only [bind, Except.bind, throw, throwThe,
    MonadExceptOf.throw]
  by_cases hEmbedding : cfg.cache.embeddingCapacity = 0
  · simp [hEmbedding]
  · by_cases hResult : cfg.cache.resultCapacity = 0
    · simp [hEmbedding, hResult]
    · rw [if_neg hEmbedding, if_neg hResult]
      cases checkHalfLife cfg.staleness .episodic with
      | error e => simp
      | ok =>
          cases checkHalfLife cfg.staleness .semantic with
          | error e => simp
          | ok => simp [hEmbedding, hResult]

/- Some file, or the baseline, loads as the configuration. -/
def Accepted (cfg : LoadedConfig) : Prop :=
  ∃ toml read write baseline,
    loadOrInit toml read write baseline = .ok cfg

/-
  What is accepted comes of a file and passes the checks.
-/
theorem accepted_iff
    {cfg : LoadedConfig} :
    Accepted cfg ↔
      ∃ file, resolve file = cfg ∧ validate cfg = .ok () := by
  constructor
  · rintro ⟨toml, read, write, baseline, h⟩
    unfold loadOrInit at h
    cases hRaw : readOrInit read write baseline with
    | error e => simp [hRaw, bind, Except.bind] at h
    | ok raw =>
        cases hFile : parse toml raw with
        | error e => simp [hRaw, hFile, bind, Except.bind] at h
        | ok file =>
            cases hValid : validate (resolve file) with
            | error e =>
                simp [hRaw, hFile, hValid, bind,
                  Except.bind] at h
            | ok valid =>
                simp only [hRaw, hFile, hValid, bind,
                  Except.bind, pure, Except.pure] at h
                cases h
                exact ⟨file, rfl, hValid⟩
  · rintro ⟨file, rfl, hValid⟩
    refine ⟨fun _ => .ok file, .contents "", .ok (), "", ?_⟩
    simp [loadOrInit, readOrInit, parse, bind, Except.bind,
      pure, Except.pure, hValid]

/- A file that leaves the cache alone needs good half-lives. -/
theorem accepted_of_halfLives
    {file : FileConfig}
    (hCache : file.cache = FileConfig.default.cache)
    (hHalfLives :
      ∀ ty, ∃ x,
        ((resolve file).staleness.typeConfig ty).halfLifeDays =
            .finite x ∧ 0 < x) :
    Accepted (resolve file) := by
  refine accepted_iff.mpr ⟨file, rfl, ?_⟩
  apply validate_eq_ok_iff.mpr
  have hSizes :
      (resolve file).cache =
        { embeddingCapacity := 256, resultCapacity := 128 } := by
    unfold resolve
    rw [hCache]
    rfl
  rw [hSizes]
  exact ⟨Nat.succ_ne_zero 255, Nat.succ_ne_zero 127, hHalfLives⟩

/- Predicate groups are not checked. -/
theorem accepted_groups (groups : Groups) :
    Accepted
      (resolve { FileConfig.default with
        predicates := ⟨groups⟩ }) := by
  refine accepted_of_halfLives rfl ?_
  intro ty
  exact ⟨_, by cases ty <;> rfl,
    StalenessConfig.default_proper.halfLife ty⟩

end Config

end Core

end Ferrex
