import Ferrex.Core.Registry
import Ferrex.Core.Calls
import Ferrex.Core.Stats

/-
  Readers of many rows join the names of each row in one
  column and split it again; readers of one row read the
  names as rows.  When the two agree, and what the requests
  of a run have to do with it.

  Main declarations:
    * `Sqlite.Separable`, `Sqlite.ReadersAgree`
    * `Sqlite.readersAgree_iff`
    * `System.registry_next`, `System.owns_requested`
    * `batch_readers_agree`
    * `batch_readers_differ`
-/

------------------------------------------------------------
-- Joined Names
------------------------------------------------------------

namespace Ferrex

namespace Store

namespace Sqlite

variable {db db' : Sqlite} {names : List String}

/- The name does not hold the unit separator. -/
def Separable (name : String) : Prop := '\x1f' ∉ name.toList

instance (name : String) : Decidable (Separable name) := by
  unfold Separable
  infer_instance

theorem not_mem_of_mem_splitOn
    {α : Type} [DecidableEq α]
    {x : α} {xs piece : List α}
    (hPiece : piece ∈ xs.splitOn x) :
    x ∉ piece := by
  induction xs generalizing piece with
  | nil =>
      rw [List.splitOn_nil, List.mem_singleton] at hPiece
      rw [hPiece]
      exact List.not_mem_nil
  | cons y ys ih =>
      rw [List.splitOn_cons_eq_if_modifyHead] at hPiece
      split at hPiece
      · rcases List.mem_cons.mp hPiece with rfl | hRest
        · exact List.not_mem_nil
        · exact ih hRest
      · rename_i hOther
        cases hPieces : ys.splitOn x with
        | nil => exact absurd hPieces (List.splitOn_ne_nil x ys)
        | cons first rest =>
            rw [hPieces] at hPiece ih
            rcases List.mem_cons.mp hPiece with rfl | hRest
            · intro hMem
              rcases List.mem_cons.mp hMem with rfl | hMem
              · exact hOther BEq.rfl
              · exact ih List.mem_cons_self hMem
            · exact ih (List.mem_cons_of_mem _ hRest)

/- What has been split holds no separator any more. -/
theorem separable_of_mem_splitAggregated
    {name : String}
    (hName : name ∈ splitAggregated names) :
    Separable name := by
  unfold splitAggregated at hName
  split at hName
  · cases hName
  · rcases List.mem_map.mp hName with ⟨piece, hPiece, rfl⟩
    unfold Separable
    rw [String.toList_ofList]
    exact not_mem_of_mem_splitOn hPiece

/- Splitting undoes joining. -/
theorem splitAggregated_of_separable
    (hNames : ∀ name ∈ names, Separable name) :
    splitAggregated names = names := by
  cases names with
  | nil => rfl
  | cons name names =>
      have hPieces :
          ∀ piece ∈ (name :: names).map String.toList,
            '\x1f' ∉ piece := by
        intro piece hPiece
        rcases List.mem_map.mp hPiece with ⟨n, hn, rfl⟩
        exact hNames n hn
      change List.map String.ofList (List.splitOn _ _) = _
      rw [List.splitOn_intercalate _ hPieces (by simp),
        List.map_map]
      simp [Function.comp_def, String.ofList_toList]

/-
  The names survive exactly if none of them holds the
  separator: a name that does is not among the pieces.
-/
theorem splitAggregated_agrees_iff :
    (∀ name, name ∈ splitAggregated names ↔ name ∈ names) ↔
      ∀ name ∈ names, Separable name := by
  constructor
  · intro hSame name hName
    exact separable_of_mem_splitAggregated
      ((hSame name).mpr hName)
  · intro hNames name
    rw [splitAggregated_of_separable hNames]

------------------------------------------------------------
-- Readers of One Row and of Many
------------------------------------------------------------

/- The memories have the names that each one has alone. -/
def AgreesOn (db : Sqlite) (ms : List Memory) : Prop :=
  ∀ m ∈ ms, ∃ single, db.getMemory m.id = some single ∧
    ∀ name, name ∈ m.entities ↔ name ∈ single.entities

structure ReadersAgree (db : Sqlite) : Prop where
  byIds : ∀ ids, db.AgreesOn (db.getMemoriesByIds ids)
  recent : ∀ ns limit, db.AgreesOn (db.recentMemories ns limit)
  timeline :
    ∀ entityId ns limit includeInvalidated types,
      db.AgreesOn
        (db.timelineByEntity entityId ns limit
          includeInvalidated types)
  aliases :
    ∀ e ∈ db.getAllEntities, ∀ name single,
      db.getEntityByName name = some single →
      single.id = e.id →
        ∀ a, a ∈ e.aliases ↔ a ∈ single.aliases

/- No name that is joined holds the separator. -/
structure JoinedSeparable (db : Sqlite) : Prop where
  entities :
    ∀ r ∈ db.memories,
      ∀ name ∈ db.getEntityNamesForMemory r.id, Separable name
  aliases :
    ∀ e ∈ db.entities, ∀ a ∈ db.aliasesOf e.id, Separable a

theorem getMemory_of_mem
    {r : MemoryRow}
    (hRow : r ∈ db.memories) :
    ∃ single, db.getMemory r.id = some single ∧
      single.entities = db.getEntityNamesForMemory r.id := by
  have hSome :
      (db.memories.find? (fun x => x.id = r.id)).isSome :=
    List.find?_isSome.mpr ⟨r, hRow, by simp⟩
  rcases Option.isSome_iff_exists.mp hSome with ⟨x, hx⟩
  exact ⟨_, by rw [getMemory, hx]; rfl, rfl⟩

/- A row agrees with itself if its names can be separated. -/
theorem agreesOn_aggregated_iff
    {rows : List MemoryRow}
    (hRows : ∀ r ∈ rows, r ∈ db.memories) :
    db.AgreesOn (rows.map db.aggregated) ↔
      ∀ r ∈ rows, ∀ name ∈ db.getEntityNamesForMemory r.id,
        Separable name := by
  unfold AgreesOn
  rw [List.forall_mem_map]
  apply forall₂_congr
  intro r hr
  rcases getMemory_of_mem (hRows r hr) with
    ⟨single, hSingle, hNames⟩
  rw [← splitAggregated_agrees_iff]
  constructor
  · rintro ⟨found, hFound, hSame⟩
    cases hSingle.symm.trans hFound
    rw [hNames] at hSame
    exact hSame
  · intro hSame
    refine ⟨single, hSingle, ?_⟩
    rw [hNames]
    exact hSame

theorem mem_of_mem_applyLimit
    {α : Type} {limit : Int} {rows : List α} {r : α}
    (hMem : r ∈ applyLimit limit rows) :
    r ∈ rows := by
  unfold applyLimit at hMem
  split at hMem
  · exact hMem
  · exact List.mem_of_mem_take hMem

/- All batches of rows agree if all rows do. -/
theorem JoinedSeparable.agreesOn
    {rows : List MemoryRow}
    (hJoined : db.JoinedSeparable)
    (hRows : ∀ r ∈ rows, r ∈ db.memories) :
    db.AgreesOn (rows.map db.aggregated) :=
  (agreesOn_aggregated_iff hRows).mpr
    (fun r hr => hJoined.entities r (hRows r hr))

theorem JoinedSeparable.readersAgree
    (hJoined : db.JoinedSeparable) :
    db.ReadersAgree where
  byIds ids := by
    intro m hm
    rcases List.mem_flatMap.mp hm with ⟨batch, _, hBatch⟩
    refine hJoined.agreesOn (fun r hr => ?_) m hBatch
    exact List.mem_of_mem_filter hr
  recent ns limit := by
    refine hJoined.agreesOn (fun r hr => ?_)
    exact List.mem_of_mem_filter
      ((List.mem_insertionSort _).mp (List.mem_of_mem_take hr))
  timeline entityId ns limit includeInvalidated types := by
    refine hJoined.agreesOn (fun r hr => ?_)
    exact List.mem_of_mem_filter
      ((List.mem_insertionSort _).mp (mem_of_mem_applyLimit hr))
  aliases e he name single hSingle hSame := by
    rcases List.mem_map.mp he with ⟨x, hx, rfl⟩
    rcases Option.map_eq_some_iff.mp hSingle with ⟨y, _, rfl⟩
    have hAliases := hJoined.aliases x hx
    intro a
    change a ∈ splitAggregated _ ↔ a ∈ db.aliasesOf y.id
    rw [splitAggregated_of_separable hAliases]
    rw [show y.id = x.id from hSame]

/- Names are unique: the lookup of a name finds its entity. -/
theorem getEntityByName_of_mem
    {e : Entity}
    (hUnique : Table.KeyUnique Entity.name db.entities)
    (hMem : e ∈ db.entities) :
    db.getEntityByName e.name =
      some { e with aliases := db.aliasesOf e.id } := by
  have hFind :
      db.entities.find? (fun x => x.name = e.name) = some e := by
    cases hFound :
        db.entities.find? (fun x => x.name = e.name) with
    | none =>
        have hNone := List.find?_eq_none.mp hFound e hMem
        simp at hNone
    | some x =>
        have hName : x.name = e.name := by
          simpa using List.find?_some hFound
        rw [hUnique.eq_of_key_eq
          (List.mem_of_find?_eq_some hFound) hMem hName]
  unfold getEntityByName
  rw [hFind]
  rfl

/- The batch reader of one row shows what becomes of it. -/
theorem ReadersAgree.separable
    {r : MemoryRow}
    (hAgree : db.ReadersAgree)
    (hRow : r ∈ db.memories) :
    ∀ name ∈ db.getEntityNamesForMemory r.id,
      Separable name := by
  have hOne := hAgree.byIds [r.id]
  have hBatches : inClauseBatches [r.id] = [[r.id]] := rfl
  unfold getMemoriesByIds at hOne
  rw [hBatches, List.flatMap_singleton] at hOne
  refine (agreesOn_aggregated_iff (fun x hx => ?_)).mp
    hOne r ?_
  · exact List.mem_of_mem_filter hx
  · simp [hRow]

/-
  The readers agree exactly on databases of which no joined
  name holds the separator.
-/
theorem readersAgree_iff
    (hUnique : Table.KeyUnique Entity.name db.entities) :
    db.ReadersAgree ↔ db.JoinedSeparable := by
  constructor
  · intro hAgree
    constructor
    · exact fun r hRow => hAgree.separable hRow
    · intro e he
      have hMem :
          { e with
            aliases := splitAggregated (db.aliasesOf e.id) } ∈
              db.getAllEntities :=
        List.mem_map_of_mem he
      exact splitAggregated_agrees_iff.mp
        (hAgree.aliases _ hMem e.name _
          (getEntityByName_of_mem hUnique he) rfl)
  · exact JoinedSeparable.readersAgree

end Sqlite

end Store

------------------------------------------------------------
-- What Events Do to the Registry
------------------------------------------------------------

namespace Core

open Store

variable {Vec F : Type}
variable {env : Env Vec F} {service : MemoryService F}

theorem ForgetStage.step_registry
    (w : World Vec)
    (st : ForgetStage F) :
    SameRegistry w.db (st.step env w).1.db := by
  cases st with
  | lookup p =>
      simp only [ForgetStage.step]
      split
      · exact .refl _
      · split <;> exact .refl _
  | insertOp p target =>
      simp only [ForgetStage.step]
      split
      · exact .refl _
      · rename_i db hInsert
        rcases Sqlite.insertPendingOp_eq_ok hInsert with
          ⟨_, rfl⟩
        exact ⟨rfl, rfl⟩
  | delete p target opId startedAt =>
      simp only [ForgetStage.step]
      split <;> exact .refl _
  | mark p target opId startedAt => exact ⟨rfl, rfl⟩
  | deleteRow p target opId startedAt => exact ⟨rfl, rfl⟩
  | complete p target opId startedAt => exact ⟨rfl, rfl⟩
  | done result => exact .refl _

theorem RecoveryStage.step_registry
    {w w' : World Vec} {st st' : RecoveryStage}
    (h : st.step env w = .ok (w', st')) :
    SameRegistry w.db w'.db := by
  cases st with
  | check report ops =>
      cases ops with
      | nil =>
          cases h
          exact .refl _
      | cons op ops =>
          simp only [RecoveryStage.step] at h
          split at h <;> cases h <;> exact .refl _
  | deletePoint report op uuid ops =>
      simp only [RecoveryStage.step] at h
      split at h
      · cases h
      · cases h
        exact .refl _
  | _ =>
      cases h
      exact ⟨rfl, rfl⟩

variable [LE F] [LT F] [DecidableLE F] [DecidableLT F]
variable {s t : System Vec F} {e : Event F}

/- Only the resolution of a name writes to the registry. -/
theorem System.registry_next
    (hNext : s.next env service e = some t) :
    SameRegistry s.world.db t.world.db ∨
      ∃ i req ctx r st, e = .step i ∧
        s.calls i =
          some ⟨.store req (.resolve ctx r), false⟩ ∧
        ResolveMove env s.world ctx r t.world st := by
  cases System.next_eq_some hNext with
  | step i task hLive =>
      have hCall := (System.live_eq_some hLive).2
      cases task with
      | forget ids st =>
          exact Or.inl (ForgetStage.step_registry s.world st)
      | store req st =>
          by_cases hResolve :
              ∃ ctx r, st = .resolve ctx r
          · rcases hResolve with ⟨ctx, r, rfl⟩
            exact Or.inr ⟨i, req, ctx, r, _, rfl, hCall,
              resolveStep_move env s.world ctx r⟩
          · exact Or.inl
              (StoreStage.step_registry env service s.world
                (fun ctx r h => hResolve ⟨ctx, r, h⟩))
  | recover _ _ _ _ hStep =>
      exact Or.inl (RecoveryStage.step_registry hStep)
  | _ => exact Or.inl (.refl _)

/- An owner of a name is not new, or the name is resolved. -/
theorem System.owns_next
    {id name : String}
    (hNext : s.next env service e = some t)
    (hOwns : t.world.db.Owns id name) :
    s.world.db.Owns id name ∨
      ∃ i req ctx r,
        s.calls i =
            some ⟨.store req (.resolve ctx r), false⟩ ∧
          name = r.current env := by
  rcases System.registry_next hNext with
    hSame | ⟨i, req, ctx, r, st, _, hCall, hMove⟩
  · unfold Sqlite.Owns at *
    rw [hSame.entities, hSame.aliases] at hOwns
    exact Or.inl hOwns
  · generalize t.world = w at hMove hOwns
    cases hMove with
    | create embedding db entity _ _ hName hAliases hInsert =>
        rcases (Sqlite.owns_insertEntity_iff hAliases
          hInsert).mp hOwns with hOld | ⟨_, hNew⟩
        · exact Or.inl hOld
        · exact Or.inr ⟨i, req, ctx, r, hCall,
            hNew.trans hName⟩
    | addAlias entity db _ hAlias =>
        rcases (Sqlite.owns_addEntityAlias_iff hAlias).mp
          hOwns with hOld | ⟨_, hNew⟩
        · exact Or.inl hOld
        · exact Or.inr ⟨i, req, ctx, r, hCall, hNew⟩
    | _ => exact Or.inl hOwns

/- No two entities come to have one name. -/
theorem System.entityNames_next
    (hNext : s.next env service e = some t)
    (hUnique :
      Table.KeyUnique Store.Entity.name s.world.db.entities) :
    Table.KeyUnique Store.Entity.name t.world.db.entities := by
  rcases System.registry_next hNext with
    hSame | ⟨_, _, _, _, _, _, _, hMove⟩
  · rw [hSame.entities]
    exact hUnique
  · generalize t.world = w at hMove
    cases hMove with
    | create embedding db entity _ _ _ hAliases hInsert =>
        rcases Sqlite.insertEntity_spec hAliases hInsert with
          ⟨hFresh, _, rfl⟩
        exact hUnique.append hFresh
    | addAlias entity db _ hAlias =>
        rcases Sqlite.addEntityAlias_spec hAlias with
          ⟨_, rfl⟩
        exact hUnique.update (fun _ => rfl)
    | _ => exact hUnique

------------------------------------------------------------
-- Names of the Requests
------------------------------------------------------------

/- What a call has still to resolve are names it was sent. -/
def Task.Resolves : Task Vec F → Prop
| .store req (.resolve _ r) =>
    r.names ≠ [] ∧ ∀ name ∈ r.names, name ∈ req.entities
| _ => True

omit [LE F] [LT F] [DecidableLE F] [DecidableLT F] in
/- The names stay, or the first of several is done. -/
theorem ResolveMove.names
    {w w' : World Vec} {ctx ctx' : StoreContext Vec F}
    {r r' : Resolving Vec}
    (hMove : ResolveMove env w ctx r w' (.resolve ctx' r')) :
    r'.names = r.names ∨
      (r'.names = r.names.tail ∧ r.names.tail ≠ []) := by
  have hNextName :
      ∀ {entity : Store.Entity},
        nextName ctx r entity = .resolve ctx' r' →
          r'.names = r.names.tail ∧ r.names.tail ≠ [] := by
    intro entity hStage
    rcases nextName_resolving ctx r entity with
      ⟨_, hAfter⟩ | ⟨_, _, hTail, hNext⟩
    · rw [hAfter] at hStage
      unfold afterEntities at hStage
      split at hStage <;> cases hStage
    · rw [hNext] at hStage
      cases hStage
      exact ⟨rfl, hTail⟩
  generalize hStage :
    (StoreStage.resolve ctx' r' : StoreStage Vec F) = st
      at hMove
  cases hMove with
  | known entity => exact Or.inr (hNextName hStage.symm)
  | point entity => exact Or.inr (hNextName hStage.symm)
  | addAlias entity => exact Or.inr (hNextName hStage.symm)
  | _ => cases hStage <;> exact Or.inl rfl

theorem taskInvariant_resolves
    (env : Env Vec F)
    (service : MemoryService F) :
    TaskInvariant env service
      (fun _ task => task.Fits service ∧ task.Resolves) where
  store c req :=
    ⟨(taskInvariant_fits env service).store c req, trivial⟩
  forget c ids :=
    ⟨(taskInvariant_fits env service).forget c ids, trivial⟩
  step w task hTask := by
    have hFits :=
      (taskInvariant_fits env service).step w task hTask.1
    refine ⟨hFits, ?_⟩
    cases task with
    | forget ids st => trivial
    | store req st =>
        change Task.Resolves (.store req (st.step env service w).2)
        cases hNext : (st.step env service w).2 with
        | resolve ctx' r' =>
            by_cases hResolve : ∃ ctx r, st = .resolve ctx r
            · rcases hResolve with ⟨ctx, r, rfl⟩
              have hMove := resolveStep_move env w ctx r
              change (resolveStep env w ctx r).2 = _ at hNext
              rw [hNext] at hMove
              rcases hTask.2 with ⟨hSome, hAll⟩
              rcases hMove.names with hSame | ⟨hTail, hMore⟩
              · exact ⟨hSame ▸ hSome, hSame ▸ hAll⟩
              · refine ⟨hTail ▸ hMore, fun name hName => ?_⟩
                rw [hTail] at hName
                exact hAll name (List.mem_of_mem_tail hName)
            · rcases StoreStage.step_eq_resolve
                (fun ctx r h => hResolve ⟨ctx, r, h⟩) hNext with
                ⟨rfl, hSome, rfl⟩
              have hRequest : ctx'.req = req :=
                (hTask.1.2 ctx' rfl).request
              rw [← hRequest]
              exact ⟨hSome, fun _ h => h⟩
        | _ => trivial
  fail c task err hTask := by
    refine ⟨(taskInvariant_fits env service).fail c task err
      hTask.1, ?_⟩
    cases task <;> trivial
  mono _ _ _ _ hTask := hTask

/-
  Along a run: the calls are those of its events, and the
  names of the registry are those that they were sent.
-/
structure System.Requested
    (env : Env Vec F)
    (service : MemoryService F)
    (es : List (Event F))
    (s : System Vec F) : Prop where
  tasks :
    ∀ i call, s.calls i = some call →
      call.task.Fits service ∧ call.task.Resolves
  calls :
    ∀ i req stage lost,
      s.calls i = some ⟨.store req stage, lost⟩ →
        ∃ j, Event.store j req ∈ es
  names :
    ∀ id name, s.world.db.Owns id name →
      ∃ j req, Event.store j req ∈ es ∧
        ∃ n ∈ req.entities, Entity.normalize env n = name

theorem System.Requested.next
    {es : List (Event F)}
    (hOld : s.Requested env service es)
    (hNext : s.next env service e = some t) :
    t.Requested env service (es ++ [e]) where
  tasks :=
    System.tasks_next (taskInvariant_resolves env service)
      hNext hOld.tasks
  calls i req stage lost hCall := by
    have hFrom :
        ∀ {task : Task Vec F} {lost : Bool} {stage},
          s.calls i = some ⟨task, lost⟩ →
            task = .store req stage →
              ∃ j, Event.store j req ∈ es ++ [e] := by
      rintro _ lost stage hCalls rfl
      rcases hOld.calls i req stage lost hCalls with ⟨j, hj⟩
      exact ⟨j, List.mem_append_left _ hj⟩
    rcases System.calls_next hNext hCall with
      ⟨old, hCalls, hSame⟩ | ⟨req', rfl, hStart⟩ |
        ⟨ids, _, hStart⟩ | ⟨task, _, hLive, hStep⟩ |
          ⟨task, err, _, hLive, hFail⟩
    · exact hFrom hCalls hSame.symm
    · cases hStart
      exact ⟨i, by simp⟩
    · cases hStart
    · cases task with
      | forget ids st => cases hStep
      | store req' st =>
          cases hStep
          exact hFrom (System.live_eq_some hLive).2 rfl
    · cases task with
      | forget ids st => cases hFail
      | store req' st =>
          cases hFail
          exact hFrom (System.live_eq_some hLive).2 rfl
  names id name hOwns := by
    rcases System.owns_next hNext hOwns with
      hOwned | ⟨i, req, ctx, r, hCall, hName⟩
    · rcases hOld.names id name hOwned with
        ⟨j, req, hEvent, hRest⟩
      exact ⟨j, req, List.mem_append_left _ hEvent, hRest⟩
    · rcases hOld.calls i req _ _ hCall with ⟨j, hEvent⟩
      refine ⟨j, req, List.mem_append_left _ hEvent, ?_⟩
      rcases (hOld.tasks i _ hCall).2 with ⟨hSome, hAll⟩
      cases hNames : r.names with
      | nil => exact absurd hNames hSome
      | cons first rest =>
          refine ⟨first, hAll first (by simp [hNames]), ?_⟩
          rw [hName, Resolving.current, hNames]
          rfl

variable {es : List (Event F)}

/- An empty registry. -/
structure System.Unnamed (s : System Vec F) : Prop where
  entities : s.world.db.entities = []
  aliases : s.world.db.entityAliases = []

/- Every name in the registry was sent by some request. -/
theorem System.owns_requested
    (hStart : (machine env service).initial s)
    (hUnnamed : s.Unnamed)
    (hRun : (machine env service).Run s es t) :
    t.Requested env service es := by
  refine hRun.history_invariant
    (fun _ _ _ _ hOld hNext => hOld.next hNext) ?_
  constructor
  · intro i call hCall
    simp [hStart.2 i] at hCall
  · intro i req stage lost hCall
    simp [hStart.2 i] at hCall
  · intro id name hOwns
    simp [Sqlite.Owns, hUnnamed.entities,
      hUnnamed.aliases] at hOwns

/- What is joined is owned. -/
theorem joinedSeparable_of_owns
    {db : Sqlite}
    (hNames :
      ∀ id name, db.Owns id name → Sqlite.Separable name) :
    db.JoinedSeparable where
  entities r _ name hName := by
    rcases List.mem_map.mp hName with ⟨e, he, rfl⟩
    exact hNames e.id e.name
      (Or.inl ⟨e, List.mem_of_mem_filter he, rfl, rfl⟩)
  aliases e _ a ha := by
    rcases List.mem_map.mp ha with ⟨⟨id, name⟩, hMem, rfl⟩
    exact hNames id name
      (Or.inr (List.mem_of_mem_filter hMem))

/-
  In a state that is reached the readers agree if and only if
  no joined name holds the separator; and they agree in every
  run whose requests name nothing that is normalized to a
  name with the separator.
-/
theorem batch_readers_agree
    (hStart : (machine env service).initial s)
    (hUnnamed : s.Unnamed)
    (hRun : (machine env service).Run s es t) :
    (t.world.db.ReadersAgree ↔ t.world.db.JoinedSeparable) ∧
      ((∀ i req, Event.store i req ∈ es →
          ∀ name ∈ req.entities,
            Sqlite.Separable (Entity.normalize env name)) →
        t.world.db.ReadersAgree) := by
  have hUnique :
      Table.KeyUnique Store.Entity.name t.world.db.entities :=
    hRun.invariant
      (I := fun s =>
        Table.KeyUnique Store.Entity.name s.world.db.entities)
      (fun _ _ _ hOld hNext =>
        System.entityNames_next hNext hOld)
      (by simp [hUnnamed.entities, Table.KeyUnique])
  refine ⟨Sqlite.readersAgree_iff hUnique, fun hClean => ?_⟩
  have hRequested :=
    System.owns_requested hStart hUnnamed hRun
  apply Sqlite.JoinedSeparable.readersAgree
  apply joinedSeparable_of_owns
  intro id name hOwns
  rcases hRequested.names id name hOwns with
    ⟨i, req, hEvent, n, hn, rfl⟩
  exact hClean i req hEvent n hn

------------------------------------------------------------
-- One Name
------------------------------------------------------------

/- A memory with one entity, stored from its first step on. -/
def storesAbout (name : String) : List (Event Rat) :=
  .store 0 { StoreRequest.note "asleep" with
    entities := [name] } :: List.replicate 13 (.step 0)

def hasMemoryOf
    (name : String)
    (t : System String Rat) : Bool :=
  t.world.db.memories.any (fun r =>
    decide (t.world.db.getEntityNamesForMemory r.id = [name]))

/- The cat is a memory's only entity, and has no separator. -/
theorem batch_readers_agree_cat :
    ∃ t, (machine Env.plain MemoryService.plain).Run
        System.empty (storesAbout "Cat") t ∧
      hasMemoryOf "cat" t = true ∧ t.world.db.ReadersAgree := by
  rcases System.run_of_any Env.plain MemoryService.plain
    System.empty (storesAbout "Cat") (hasMemoryOf "cat")
    (by decide +kernel) with ⟨t, hRun, hTest⟩
  refine ⟨t, hRun, hTest, ?_⟩
  refine (batch_readers_agree ⟨rfl, fun _ => rfl⟩ ⟨rfl, rfl⟩
    hRun).2 ?_
  intro i req hEvent name hName
  rcases List.mem_cons.mp hEvent with hStore | hStep
  · cases hStore
    rw [List.mem_singleton.mp hName]
    decide +kernel
  · cases List.eq_of_mem_replicate hStep

/- The unit separator is no white space: it stays in a name. -/
theorem batch_readers_differ :
    ¬ ∀ (s t : System String Rat) (es : List (Event Rat)),
        (machine Env.plain MemoryService.plain).initial s →
        s.Unnamed →
        (machine Env.plain MemoryService.plain).Run s es t →
          t.world.db.ReadersAgree := by
  intro hClaim
  rcases System.run_of_any Env.plain MemoryService.plain
    System.empty (storesAbout "black\x1fcat")
    (hasMemoryOf "black\x1fcat") (by decide +kernel) with
    ⟨t, hRun, hTest⟩
  have hAgree :=
    hClaim _ _ _ ⟨rfl, fun _ => rfl⟩ ⟨rfl, rfl⟩ hRun
  rcases List.any_eq_true.mp hTest with ⟨r, hRow, hNames⟩
  rw [decide_eq_true_eq] at hNames
  have hSeparable := hAgree.separable hRow
  rw [hNames] at hSeparable
  exact absurd (hSeparable _ (List.mem_singleton_self _))
    (by decide +kernel)

end Core

end Ferrex
