import Ferrex.Lib.Decimal
import Ferrex.Core.Serialize

/-
  The key of a daemon: the bytes that are hashed for an
  executable and a configuration, and which configurations
  these bytes do not tell apart.

  Main declarations:
    * `FerrexConfig`, `FerrexConfig.toValue`
    * `resolveOnPath`
    * `Launch.preimage`, `computeKey`
    * `Launch.Same`, `Launch.Alike`, `Launch.Blurred`
    * `Launch.preimage_eq_iff`
-/

------------------------------------------------------------
-- The Configuration
------------------------------------------------------------

namespace Ferrex

namespace Daemon

open Store Ferrex.Core

/- The size of the embedding model. -/
inductive ModelTier where
| small
| mid
| best

/- The reranker that is loaded. -/
inductive RerankerTier where
| default
| multilingual

/-
  The derived serializer writes a unit variant by its name.
-/
def ModelTier.toValue : ModelTier → Json
| .small => .str "Small"
| .mid => .str "Mid"
| .best => .str "Best"

/- The derived serializer does so for the reranker too. -/
def RerankerTier.toValue : RerankerTier → Json
| .default => .str "Default"
| .multilingual => .str "Multilingual"

/- The whole configuration, with its 32- and 64-bit floats. -/
structure FerrexConfig (F D : Type) where
  qdrantUrl : Option String
  qdrantBin : String
  qdrantPort : Nat
  modelTier : ModelTier
  rerankerTier : RerankerTier
  «namespace» : String
  dbPath : String
  configPath : Option String
  deduplication : DedupConfig F
  conflict : ConflictConfig F
  predicates : PredicatesConfig
  reconciliation : ReconciliationConfig
  staleness : StalenessConfig D
  readerPoolSize : Nat
  cache : CacheConfig

/-
  The options of the command line that reach the
  configuration.
-/
structure Cli where
  qdrantUrl : Option String
  qdrantBin : String
  qdrantPort : Nat
  modelTier : ModelTier
  rerankerTier : RerankerTier
  «namespace» : String

/- The paths have been made absolute. -/
def buildConfig
    (cli : Cli)
    (dbPath configPath : String)
    (loaded : LoadedConfig) :
    FerrexConfig ConfigFloat ConfigFloat where
  qdrantUrl := cli.qdrantUrl
  qdrantBin := cli.qdrantBin
  qdrantPort := cli.qdrantPort
  modelTier := cli.modelTier
  rerankerTier := cli.rerankerTier
  «namespace» := cli.namespace
  dbPath := dbPath
  configPath := some configPath
  deduplication := loaded.deduplication
  conflict := loaded.conflict
  predicates := loaded.predicates
  reconciliation := loaded.reconciliation
  staleness := loaded.staleness
  readerPoolSize := loaded.readerPoolSize
  cache := loaded.cache

section Keys

variable {F D : Type}

/-
  The configuration as a JSON object, field by field in the
  order of the struct.
-/
def FerrexConfig.toValue
    (single : FloatFormat F)
    (double : FloatFormat D)
    (order : TypeOrder)
    (config : FerrexConfig F D) : KeyMap Json where
  entries :=
    [("qdrant_url", Json.optional .str config.qdrantUrl),
      ("qdrant_bin", .str config.qdrantBin),
      ("qdrant_port", natural config.qdrantPort),
      ("model_tier", config.modelTier.toValue),
      ("reranker_tier", config.rerankerTier.toValue),
      ("namespace", .str config.namespace),
      ("db_path", .str config.dbPath),
      ("config_path", Json.optional .str config.configPath),
      ("deduplication", config.deduplication.toValue single),
      ("conflict", config.conflict.toValue single),
      ("predicates", config.predicates.toValue),
      ("reconciliation", config.reconciliation.toValue),
      ("staleness", config.staleness.toValue double order),
      ("reader_pool_size", natural config.readerPoolSize),
      ("cache", config.cache.toValue)]
  unique := by simp [Table.KeyUnique]

------------------------------------------------------------
-- The Search Path
------------------------------------------------------------

/-
  What the resolution of an executable asks of the file
  system.
-/
structure FileSystem where
  isExecutableFile : String → Bool
  canonicalize : String → Option String

/- A directory without a final slash is given one. -/
def join (dir bin : String) : String :=
  match dir.toList.getLast? with
  | none => bin
  | some '/' => dir ++ bin
  | some _ => dir ++ "/" ++ bin

/- `path` has the directories of the search path, if it is set. -/
def resolveOnPath
    (fs : FileSystem)
    (path : Option (List String))
    (bin : String) : Option String :=
  if bin.toList.contains '/' then
    fs.canonicalize bin
  else
    match path with
    | none => none
    | some dirs =>
        ((dirs.map (fun dir => join dir bin)).find?
          fs.isExecutableFile).bind fs.canonicalize

------------------------------------------------------------
-- The Hashed Bytes
------------------------------------------------------------

/-
  A file that exists: its path has no zero byte.  The time of
  its last change is in nanoseconds since the epoch.
-/
structure Executable where
  path : String
  modified : Fin (2 ^ 128)
  noZero : 0 ∉ Decimal.bytes path

/- What a session starts with, and where. -/
structure Launch (F D : Type) where
  exe : Executable
  config : FerrexConfig F D
  typeOrder : TypeOrder
  fs : FileSystem
  path : Option (List String)

/- A number's lowest bytes, the lowest first. -/
def toLeBytes : Nat → Nat → List UInt8
| 0, _ => []
| width + 1, n => UInt8.ofNat n :: toLeBytes width (n / 256)

/- The first eight bytes of a digest, in lower-case hex. -/
def hex16 (digest : List UInt8) : String :=
  String.ofList ((digest.take 8).flatMap (fun b =>
    [Nat.digitChar (b.toNat / 16), Nat.digitChar (b.toNat % 16)]))

namespace Launch

/- The Qdrant binary that the daemon would start. -/
def resolved (launch : Launch F D) : Option String :=
  resolveOnPath launch.fs launch.path launch.config.qdrantBin

/-
  The configuration that is hashed: without its namespace,
  with the binary resolved.
-/
def hashedValue
    (single : FloatFormat F)
    (double : FloatFormat D)
    (launch : Launch F D) : KeyMap Json :=
  let obj :=
    (launch.config.toValue single double
      launch.typeOrder).remove "namespace"
  match launch.config.qdrantUrl, launch.resolved with
  | none, some resolved => obj.insert "qdrant_bin" (.str resolved)
  | _, _ => obj

/-
  The bytes that are hashed: the executable's path, its
  time, the configuration.
-/
def preimage
    (single : FloatFormat F)
    (double : FloatFormat D)
    (launch : Launch F D) : List UInt8 :=
  Decimal.bytes launch.exe.path ++
    0 :: (toLeBytes 16 launch.exe.modified ++
      Decimal.bytes (String.ofList
        (Json.object
          (launch.hashedValue single double).entries).print))

end Launch

/- The key is a digest of these bytes. -/
def computeKey
    (sha256 : List UInt8 → List UInt8)
    (single : FloatFormat F)
    (double : FloatFormat D)
    (launch : Launch F D) : String :=
  hex16 (sha256 (launch.preimage single double))

------------------------------------------------------------
-- Equal Launches
------------------------------------------------------------

/- The configuration with another binary. -/
def FerrexConfig.withBin
    (bin : String)
    (config : FerrexConfig F D) : FerrexConfig F D :=
  { config with qdrantBin := bin }

/-
  Equal but for their namespaces, with the floats compared by
  `R` and `Q`.
-/
@[mk_iff] structure FerrexConfig.Rel
    (R : F → F → Prop)
    (Q : D → D → Prop)
    (config config' : FerrexConfig F D) : Prop where
  qdrantUrl : config.qdrantUrl = config'.qdrantUrl
  qdrantBin : config.qdrantBin = config'.qdrantBin
  qdrantPort : config.qdrantPort = config'.qdrantPort
  modelTier : config.modelTier = config'.modelTier
  rerankerTier : config.rerankerTier = config'.rerankerTier
  dbPath : config.dbPath = config'.dbPath
  configPath : config.configPath = config'.configPath
  deduplication : config.deduplication.Rel R config'.deduplication
  conflict : config.conflict.Rel R config'.conflict
  predicates : config.predicates.Same config'.predicates
  reconciliation : config.reconciliation = config'.reconciliation
  staleness : config.staleness.Rel Q config'.staleness
  readerPoolSize : config.readerPoolSize = config'.readerPoolSize
  cache : config.cache = config'.cache

/-
  A weaker relation on the floats gives a weaker one on
  configurations.
-/
theorem FerrexConfig.Rel.mono
    {R R' : F → F → Prop} {Q Q' : D → D → Prop}
    {config config' : FerrexConfig F D}
    (hSingle : ∀ x y, R x y → R' x y)
    (hDouble : ∀ x y, Q x y → Q' x y)
    (h : config.Rel R Q config') : config.Rel R' Q' config' :=
  { h with
    deduplication := h.deduplication.mono hSingle
    conflict := h.conflict.mono hSingle
    staleness := h.staleness.mono hDouble }

namespace Launch

/- The configuration with the binary that it resolves to. -/
def effective (launch : Launch F D) : FerrexConfig F D :=
  match launch.config.qdrantUrl, launch.resolved with
  | none, some resolved =>
      launch.config.withBin resolved
  | _, _ => launch.config

/-
  Two launches agree up to relations on the two float types.
-/
structure Rel
    (R : F → F → Prop)
    (Q : D → D → Prop)
    (a b : Launch F D) : Prop where
  exe : a.exe.path = b.exe.path
  modified : a.exe.modified = b.exe.modified
  config : a.effective.Rel R Q b.effective

/- Two launches agree exactly. -/
def Same (a b : Launch F D) : Prop :=
  a.Rel Eq Eq b

/- The same, but for floats that are finite in neither. -/
def Alike
    (single : FloatFormat F)
    (double : FloatFormat D)
    (a b : Launch F D) : Prop :=
  a.Rel single.Alike double.Alike b

/- They differ, but in nothing else than such floats. -/
def Blurred
    (single : FloatFormat F)
    (double : FloatFormat D)
    (a b : Launch F D) : Prop :=
  a.Alike single double b ∧ ¬ a.Same b

/- Floats that are equal print alike. -/
theorem Same.alike
    {a b : Launch F D}
    {single : FloatFormat F} {double : FloatFormat D}
    (h : a.Same b) : a.Alike single double b where
  exe := h.exe
  modified := h.modified
  config := h.config.mono (fun _ _ => Or.inl) (fun _ _ => Or.inl)

end Launch

------------------------------------------------------------
-- Reading the Bytes Back
------------------------------------------------------------

/- Different tiers are written differently. -/
theorem ModelTier.toValue_inj
    {tier tier' : ModelTier} :
    tier.toValue = tier'.toValue ↔ tier = tier' := by
  cases tier <;> cases tier' <;> simp [toValue]

/- Different rerankers too. -/
theorem RerankerTier.toValue_inj
    {tier tier' : RerankerTier} :
    tier.toValue = tier'.toValue ↔ tier = tier' := by
  cases tier <;> cases tier' <;> simp [toValue]

/- An absent text is not a present one. -/
theorem optional_str_inj
    {a b : Option String} :
    Json.optional .str a = Json.optional .str b ↔ a = b :=
  Json.optional_inj (fun _ _ h => Json.str.inj h)
    (fun _ h => Json.noConfusion h)

/- A number below the width is recovered from its bytes. -/
theorem toLeBytes_inj
    {width m n : Nat}
    (hm : m < 256 ^ width)
    (hn : n < 256 ^ width)
    (h : toLeBytes width m = toLeBytes width n) : m = n := by
  induction width generalizing m n with
  | zero => omega
  | succ width ih =>
      rw [toLeBytes, toLeBytes] at h
      obtain ⟨hLow, hHigh⟩ := List.cons.inj h
      have hByte : m % 256 = n % 256 := by
        have hNat := congrArg UInt8.toNat hLow
        simpa using hNat
      rw [Nat.pow_succ] at hm hn
      have hRest : m / 256 = n / 256 :=
        ih (Nat.div_lt_of_lt_mul (by omega))
          (Nat.div_lt_of_lt_mul (by omega)) hHigh
      omega

/- The path ends with the first zero byte. -/
theorem path_inj
    (exe exe' : Executable)
    {r r' : List UInt8}
    (h :
      Decimal.bytes exe.path ++ 0 :: r =
        Decimal.bytes exe'.path ++ 0 :: r') :
    exe.path = exe'.path ∧ r = r' := by
  have hRun :
      ∀ (exe : Executable), ∀ byte ∈ Decimal.bytes exe.path,
        (byte != 0) = true := by
    intro exe byte hMem
    rw [bne_iff_ne]
    rintro rfl
    exact exe.noZero hMem
  obtain ⟨hPath, hRest⟩ := Json.run_inj (hRun exe) (hRun exe')
    (Json.ends_cons rfl) (Json.ends_cons rfl) h
  exact ⟨Decimal.bytes_inj hPath, (List.cons.inj hRest).2⟩

/- The bytes are as many as asked for. -/
@[simp] theorem length_toLeBytes
    (width n : Nat) : (toLeBytes width n).length = width := by
  induction width generalizing n with
  | zero => rfl
  | succ width ih => rw [toLeBytes, List.length_cons, ih]

variable {single : FloatFormat F} {double : FloatFormat D}

/-
  Two configurations serialize alike exactly when their
  fields do, namespace aside.
-/
theorem FerrexConfig.toValue_eq_iff
    {order order' : TypeOrder}
    {config config' : FerrexConfig F D} :
    Json.object
          ((config.toValue single double order).remove
            "namespace").entries =
        Json.object
          ((config'.toValue single double order').remove
            "namespace").entries ↔
      config.Rel single.Alike double.Alike config' := by
  refine Iff.trans (Json.object_eq_iff
    ((config.toValue single double order).remove
      "namespace").unique ?_) ?_
  · simp [KeyMap.remove, toValue, Table.delete]
  simp [KeyMap.remove, toValue, Table.delete, rel_iff,
    optional_str_inj, natural_inj, ModelTier.toValue_inj,
    RerankerTier.toValue_inj, DedupConfig.toValue_eq_iff,
    ConflictConfig.toValue_eq_iff, PredicatesConfig.toValue_eq_iff,
    ReconciliationConfig.toValue_eq_iff,
    StalenessConfig.toValue_eq_iff, CacheConfig.toValue_eq_iff]

/- Another binary is written in its place. -/
theorem FerrexConfig.get_withBin
    (order : TypeOrder)
    (config : FerrexConfig F D)
    (bin k : String) :
    ((config.withBin bin).toValue single double order).get k =
      if k = "qdrant_bin" then some (.str bin)
      else (config.toValue single double order).get k := by
  by_cases hKey : k = "qdrant_bin"
  · rw [if_pos hKey, hKey]
    rfl
  · rw [if_neg hKey]
    simp only [KeyMap.get, toValue, withBin, List.lookup_cons,
      beq_false_of_ne hKey]

namespace Launch

variable {a b : Launch F D}

/-
  Removing the namespace and setting the binary commute,
  field by field.
-/
theorem get_hashedValue
    (launch : Launch F D)
    (k : String) :
    (launch.hashedValue single double).get k =
      ((launch.effective.toValue single double
        launch.typeOrder).remove "namespace").get k := by
  unfold hashedValue effective
  split
  · rw [KeyMap.get_insert, KeyMap.get_remove, KeyMap.get_remove,
      FerrexConfig.get_withBin]
    by_cases hKey : k = "qdrant_bin"
    · subst hKey
      rfl
    · rw [if_neg hKey, if_neg hKey]
  · rfl

/- The hashed bytes tell apart all but the blurred launches. -/
theorem preimage_eq_iff :
    a.preimage single double = b.preimage single double ↔
      a.Alike single double b := by
  have hConfig :
      Json.object (a.hashedValue single double).entries =
          Json.object (b.hashedValue single double).entries ↔
        a.effective.Rel single.Alike double.Alike b.effective := by
    rw [KeyMap.object_eq_iff.mpr a.get_hashedValue,
      KeyMap.object_eq_iff.mpr b.get_hashedValue]
    exact FerrexConfig.toValue_eq_iff
  unfold preimage
  constructor
  · intro h
    obtain ⟨hPath, hRest⟩ := path_inj a.exe b.exe h
    obtain ⟨hModified, hText⟩ := List.append_inj hRest
      (by rw [length_toLeBytes, length_toLeBytes])
    exact
      { exe := hPath
        modified := Fin.ext (toLeBytes_inj
          a.exe.modified.isLt b.exe.modified.isLt hModified)
        config := hConfig.mp (Json.print_injective
          (String.ofList_injective (Decimal.bytes_inj hText))) }
  · intro h
    rw [h.exe, h.modified, hConfig.mpr h.config]

/- Equal bytes mean equal launches, unless these are blurred. -/
theorem separated_iff
    (single : FloatFormat F)
    (double : FloatFormat D)
    (a b : Launch F D) :
    (a.preimage single double = b.preimage single double ↔
        a.Same b) ↔
      ¬ a.Blurred single double b := by
  rw [preimage_eq_iff]
  unfold Blurred
  constructor
  · intro hSeparated hBlurred
    exact hBlurred.2 (hSeparated.mp hBlurred.1)
  · intro hNot
    constructor
    · intro hAlike
      by_contra hDiffer
      exact hNot ⟨hAlike, hDiffer⟩
    · exact Same.alike

end Launch

end Keys

------------------------------------------------------------
-- A Shared Key
------------------------------------------------------------

namespace Shared

/- A file whose floats are whole, but for one threshold. -/
def file (threshold : ConfigFloat) : FileConfig :=
  { FileConfig.default with
    deduplication := ⟨some threshold⟩
    conflict := ⟨some (.finite 1), some (.finite 0)⟩
    staleness :=
      { weightAge := some (.finite 1)
        weightAccess := some (.finite 0)
        weightValidated := some (.finite 0)
        weightCount := some (.finite 0)
        countScale := some (.finite 10)
        episodic := some ⟨some (.finite 30), some (.finite 1)⟩
        semantic := some ⟨some (.finite 180), some (.finite 1)⟩
        procedural :=
          some ⟨some (.finite 365), some (.finite 1)⟩ } }

/-
  The settings of the example pass the checks of the source.
-/
theorem accepted_file (threshold : ConfigFloat) :
    Config.Accepted (Config.resolve (file threshold)) := by
  refine Config.accepted_of_halfLives rfl ?_
  intro ty
  cases ty with
  | episodic => exact ⟨30, rfl, by norm_num⟩
  | semantic => exact ⟨180, rfl, by norm_num⟩
  | procedural => exact ⟨365, rfl, by norm_num⟩

/-
  A launch which differs from another in one threshold only.
-/
def launch (threshold : ConfigFloat) :
    Launch ConfigFloat ConfigFloat where
  exe :=
    { path := "/usr/bin/ferrex"
      modified := 1
      noZero := by decide }
  config :=
    buildConfig
      { qdrantUrl := none
        qdrantBin := "qdrant"
        qdrantPort := 6334
        modelTier := .best
        rerankerTier := .default
        «namespace» := "default" }
      "/data/ferrex.db" "/data/ferrex.toml"
      (Config.resolve (file threshold))
  typeOrder := ⟨[.episodic, .semantic, .procedural], .refl _⟩
  fs := ⟨fun _ => false, fun _ => none⟩
  path := some ["/usr/bin"]

end Shared

/- Two thresholds that are not finite are one to the key. -/
theorem key_shared :
    Config.Accepted (Config.resolve (Shared.file (.infinite false))) ∧
      Config.Accepted (Config.resolve (Shared.file (.infinite true))) ∧
      ¬ (Shared.launch (.infinite false)).Same
          (Shared.launch (.infinite true)) ∧
      (Shared.launch (.infinite false)).preimage
            ConfigFloat.format ConfigFloat.format =
        (Shared.launch (.infinite true)).preimage
          ConfigFloat.format ConfigFloat.format ∧
      ∀ sha256,
        computeKey sha256 ConfigFloat.format ConfigFloat.format
            (Shared.launch (.infinite false)) =
          computeKey sha256 ConfigFloat.format ConfigFloat.format
            (Shared.launch (.infinite true)) := by
  have hBytes :
      (Shared.launch (.infinite false)).preimage
            ConfigFloat.format ConfigFloat.format =
        (Shared.launch (.infinite true)).preimage
          ConfigFloat.format ConfigFloat.format :=
    rfl
  refine ⟨Shared.accepted_file _, Shared.accepted_file _, ?_,
    hBytes, ?_⟩
  · intro hSame
    cases hSame.config.deduplication
  · intro sha256
    unfold computeKey
    rw [hBytes]

end Daemon

end Ferrex
