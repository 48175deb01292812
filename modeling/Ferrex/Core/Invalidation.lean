import Ferrex.Core.Cached
import Ferrex.Core.Supersede

/-
  Writes and the cache: once a store or forget call has
  returned, no recall that looks up its answer later is given
  a row as it was before the call changed it, provided that
  no forget fails with its bump still to come and that each
  namespace keeps to its own rows.

  Main declarations:
    * `Cached.Confined`
    * `Cached.Truthful`, `Cached.Accounted`
    * `returned_write_invalidates`
    * `forgotten_row_served`
-/

------------------------------------------------------------
-- Changes of a Step
------------------------------------------------------------

namespace Ferrex

namespace Core

open Store
open Stamps

variable {Vec F D : Type}

/-
  What a step of a call does to the rows, and to whom it owes
  its bump.
-/
inductive Task.Changed
    (env : Env Vec F)
    (rows rows' : List MemoryRow)
    (task next : Task Vec F) : Prop
| keep
    (hIds : (task.changedIds next).1 = [])
    (hRows : rows' = rows)
| commit
    {req : StoreRequest} {ctx : StoreContext Vec F}
    {opId : String} {startedAt : DateTime}
    (hTask : task = .store req (.commit ctx opId startedAt))
    (hIds :
      task.changedIds next = (Write.invalidateIds ctx, false))
    (hOwes : task.owes next = some ctx.namespace)
    (hRows : rows' = Write.rows env ctx rows)
| delete
    {ids : List String} {p : ForgetProgress}
    {target : ForgetTarget} {opId : String}
    {startedAt : DateTime}
    (hTask :
      task = .forget ids (.deleteRow p target opId startedAt))
    (hIds : task.changedIds next = ([target.id], true))
    (hNext :
      next = .forget ids (.complete p target opId startedAt))
    (hRows : rows' = rows.filter (fun r => r.id ≠ target.id))

private theorem changedIds_of_ne_done
    {req req' : StoreRequest} {st st' : StoreStage Vec F}
    (hStage : ∀ resp, st' ≠ .done (.ok resp)) :
    (Task.changedIds (.store req st) (.store req' st')).1 =
      [] := by
  unfold Task.changedIds
  split
  · rename_i hNext
    cases hNext
    exact absurd rfl (hStage _)
  · rename_i hTask
    cases hTask
  · rfl

private theorem ForgetStage.step_changed
    (env : Env Vec F)
    (w : World Vec)
    (ids : List String)
    (st : ForgetStage F) :
    Task.Changed env w.db.memories
      (st.step env w).1.db.memories
      (.forget ids st : Task Vec F)
      (.forget ids (st.step env w).2) := by
  cases st with
  | deleteRow p target opId startedAt =>
      refine .delete rfl rfl rfl ?_
      simp [ForgetStage.step, Sqlite.deleteMemories,
        Table.delete]
  | insertOp p target =>
      refine .keep rfl ?_
      simp only [ForgetStage.step]
      split
      · rfl
      · rename_i db hInsert
        rcases Sqlite.insertPendingOp_eq_ok hInsert with
          ⟨_, rfl⟩
        rfl
  | _ =>
      refine .keep rfl ?_
      simp only [ForgetStage.step]
      repeat' split
      all_goals rfl

section Steps

variable [LE F] [LT F] [DecidableLE F] [DecidableLT F]

theorem Task.step_changed
    (env : Env Vec F)
    (service : MemoryService F)
    (w : World Vec)
    (task : Task Vec F) :
    Task.Changed env w.db.memories
      (task.step env service w).1.db.memories task
      (task.step env service w).2 := by
  cases task with
  | forget ids st => exact st.step_changed env w ids
  | store req st =>
      have hEffect := StoreStage.step_effect env service w st
      simp only [Task.step]
      generalize st.step env service w = next at hEffect
      rcases next with ⟨w', st'⟩
      cases hEffect with
      | start hQuiet =>
          exact .keep rfl hQuiet.memories
      | prepare _ hNew _ _ hQuiet =>
          exact .keep (changedIds_of_ne_done fun _ =>
            Task.ne_done_of_preparing hNew _)
            hQuiet.memories
      | createEntity _ hNew _ _ hQuiet =>
          exact .keep (changedIds_of_ne_done fun _ =>
            Task.ne_done_of_preparing hNew _)
            hQuiet.memories
      | entityPoint _ hNew _ _ _ hQuiet =>
          exact .keep (changedIds_of_ne_done fun _ =>
            Task.ne_done_of_preparing hNew _)
            hQuiet.memories
      | stop hQuiet =>
          exact .keep
            (changedIds_of_ne_done fun resp h => by cases h)
            hQuiet.memories
      | log hInsert =>
          rcases Sqlite.insertPendingOp_eq_ok hInsert with
            ⟨_, rfl⟩
          exact .keep rfl rfl
      | write => exact .keep rfl rfl
      | mark => exact .keep rfl rfl
      | commit hCommit =>
          rcases Sqlite.commitMemoryWrite_eq_ok hCommit with
            ⟨_, links, rfl⟩
          exact .commit rfl rfl rfl rfl
      | done =>
          refine .keep ?_ rfl
          rfl

end Steps

/- The rows that a recall has read, with their namespace. -/
def RecallStage.readRows :
    RecallStage Vec F D → Option (String × List Memory)
| .rows q _ => some (q.namespace, [])
| .rerank q ordered => some (q.namespace, ordered)
| .flush q results _ =>
    some (q.namespace, results.map (fun r => r.memory))
| .put q results =>
    some (q.namespace, results.map (fun r => r.memory))
| _ => none

/- If the recall has looked its answer up, it was since then. -/
def RecallCall.AsksFrom
    (now : Nat)
    (call : RecallCall Vec F D) : Prop :=
  (call.hit.isSome = true ∨
      ∃ q currentGen, call.stage = .entry q currentGen) →
    now ≤ call.lookupAt

/- The rows of an answer. -/
def Answer.memories (answer : Answer F D) : List Memory :=
  answer.results.map (fun r => r.memory)

namespace Cached

/- A forget that has deleted its row and not yet bumped. -/
def Forgetting (s : Cached Vec F D) (i : Nat) (ns : String) :
    Prop :=
  ∃ ids p target opId startedAt,
    s.sys.live i =
        some (.forget ids (.complete p target opId startedAt)) ∧
      target.namespace = ns

/-
  No forget fails once it has deleted its row, no store
  invalidates a row of another namespace, and no recall finds
  one in the collection of its own.
-/
def Confined (s : Cached Vec F D) : Event F → Prop
| .sys (.fail i _) => ∀ ns, ¬ s.Forgetting i ns
| .sys (.step i) =>
    ∀ req ctx opId startedAt,
      s.sys.live i =
          some (.store req (.commit ctx opId startedAt)) →
        ∀ r ∈ s.sys.world.db.memories,
          r.id ∈ Write.invalidateIds ctx →
            r.namespace = ctx.namespace
| .advance j =>
    ∀ call q found, s.recalls j = some call →
      call.stage = .rows q found →
        ∀ m ∈ s.sys.world.db.getMemoriesByIds
            (found.map Prod.fst),
          m.namespace = q.namespace
| _ => True

------------------------------------------------------------
-- What Is Known of Read Rows
------------------------------------------------------------

/-
  Rows of a namespace that were read no earlier than a time:
  none of them had been deleted before that, and those that
  had been invalidated say so.
-/
def Truthful
    (s : Cached Vec F D)
    (ns : String)
    (readFrom : Nat)
    (memories : List Memory) : Prop :=
  readFrom ≤ s.time ∧
    ∀ m ∈ memories,
      (ns, m.id) ∈ s.sys.committed ∧
        ∀ c ∈ s.changes, c.time < readFrom → m.id = c.id →
          c.deleted = false ∧ m.tInvalid.isSome = true

section Truthful

variable {s t : Cached Vec F D}
variable {ns : String} {readFrom : Nat}
variable {memories : List Memory}

theorem Truthful.nil
    (hRead : readFrom ≤ s.time) :
    Truthful s ns readFrom [] :=
  ⟨hRead, fun m hm => by cases hm⟩

theorem Truthful.subset
    {memories' : List Memory}
    (hTruthful : Truthful s ns readFrom memories)
    (hSubset : memories' ⊆ memories) :
    Truthful s ns readFrom memories' :=
  ⟨hTruthful.1, fun m hm => hTruthful.2 m (hSubset hm)⟩

/- What is deleted later does not concern what was read. -/
theorem Truthful.mono
    (hTruthful : Truthful s ns readFrom memories)
    (hTime : s.time ≤ t.time)
    (hCommitted : s.sys.committed ⊆ t.sys.committed)
    (hChanges :
      ∀ c ∈ t.changes, c ∈ s.changes ∨ s.time ≤ c.time) :
    Truthful t ns readFrom memories := by
  refine ⟨Nat.le_trans hTruthful.1 hTime, fun m hm => ?_⟩
  rcases hTruthful.2 m hm with ⟨hKnown, hKept⟩
  refine ⟨hCommitted hKnown, fun c hc hBefore hId => ?_⟩
  rcases hChanges c hc with hOld | hLater
  · exact hKept c hOld hBefore hId
  · have hRead := hTruthful.1
    omega

end Truthful

------------------------------------------------------------
-- Accounts of Changes
------------------------------------------------------------

/-
  Every change is of a known row, shows in the rows, and is
  followed by a bump that was made, is owed or is still to be
  owed; what is read after it shows it as well.
-/
structure Accounted
    (env : Env Vec F)
    (s : Cached Vec F D) : Prop where
  ordered : Ordered env s.sys
  changed :
    ∀ c ∈ s.changes,
      (c.namespace, c.id) ∈ s.sys.committed ∧
        c.time < s.time
  shown :
    ∀ c ∈ s.changes, ∀ r ∈ s.sys.world.db.memories,
      r.id = c.id →
        c.deleted = false ∧ r.tInvalid.isSome = true
  bumped :
    ∀ c ∈ s.changes,
      (∃ b ∈ s.bumps, b.scope = c.namespace ∧
        c.time < b.time) ∨
      s.owed c.call = some c.namespace ∨
      s.Forgetting c.call c.namespace
  rows :
    ∀ j call ns memories, s.recalls j = some call →
      call.stage.readRows = some (ns, memories) →
        Truthful s ns call.readFrom memories
  hits :
    ∀ j call ns answer, s.recalls j = some call →
      call.hit = some (ns, answer) →
        Truthful s ns answer.readFrom answer.memories

namespace Accounted

variable {env : Env Vec F}
variable {s t : Cached Vec F D}

theorem start
    {sys : System Vec F}
    (config : CacheConfig)
    (hIdle : Idle env sys) :
    Accounted env (Cached.start sys config : Cached Vec F D)
    where
  ordered := hIdle.ordered
  changed c hc := by cases hc
  shown c hc := by cases hc
  bumped c hc := by cases hc
  rows j call ns memories hCall := by cases hCall
  hits j call ns answer hCall := by cases hCall

/- Accesses and validations leave the changes visible. -/
theorem shown_touched
    {db : Sqlite}
    (hAccounted : Accounted env s)
    (hRows : Sqlite.TouchedRows s.sys.world.db db) :
    ∀ c ∈ s.changes, ∀ r ∈ db.memories, r.id = c.id →
      c.deleted = false ∧ r.tInvalid.isSome = true := by
  intro c hc r hr
  rcases hRows with ⟨g, hg, rfl⟩
  rcases List.mem_map.mp hr with ⟨r₀, hr₀, rfl⟩
  rw [hg r₀]
  exact hAccounted.shown c hc r₀ hr₀

/- A step of one recall. -/
theorem setRecall
    {s' : Cached Vec F D} {j : Nat}
    {call : RecallCall Vec F D} {db : Sqlite}
    (hAccounted : Accounted env s)
    (hRows : Sqlite.TouchedRows s.sys.world.db db)
    (hSys :
      s'.sys = { s.sys with
        world := { s.sys.world with db := db } })
    (hSame :
      s'.recalls = s.recalls ∧ s'.bumps = s.bumps ∧
        s'.time = s.time ∧ s'.owed = s.owed ∧
          s'.changes = s.changes)
    (hRead :
      ∀ ns memories,
        call.stage.readRows = some (ns, memories) →
          Truthful s ns call.readFrom memories)
    (hHit :
      ∀ ns answer, call.hit = some (ns, answer) →
        Truthful s ns answer.readFrom answer.memories) :
    Accounted env (s'.setRecall j call) := by
  rcases s' with ⟨_, cache, tracker, background, _, _, _, _, _⟩
  rcases hSame with ⟨rfl, rfl, rfl, rfl, rfl⟩
  subst hSys
  have hMono :
      ∀ {ns readFrom memories},
        Truthful s ns readFrom memories →
          Truthful (Cached.setRecall
            { sys := { s.sys with
                world := { s.sys.world with db := db } }
              cache := cache
              tracker := tracker
              background := background
              recalls := s.recalls
              owed := s.owed
              time := s.time
              bumps := s.bumps
              changes := s.changes } j call)
            ns readFrom memories :=
    fun h => h.mono (Nat.le_succ _) (fun _ h => h)
      (fun c hc => Or.inl hc)
  constructor
  case ordered => exact hAccounted.ordered.touched hRows
  case changed =>
    intro c hc
    rcases hAccounted.changed c hc with ⟨hKnown, hPast⟩
    exact ⟨hKnown, Nat.lt_succ_of_lt hPast⟩
  case shown => exact hAccounted.shown_touched hRows
  case bumped => exact hAccounted.bumped
  case rows =>
    intro i call' ns memories hCall' hRows'
    change Function.update s.recalls j (some call) i = _
      at hCall'
    rw [Function.update_apply] at hCall'
    split at hCall'
    · cases hCall'
      exact hMono (hRead ns memories hRows')
    · exact hMono
        (hAccounted.rows i call' ns memories hCall' hRows')
  case hits =>
    intro i call' ns answer hCall' hHit'
    change Function.update s.recalls j (some call) i = _
      at hCall'
    rw [Function.update_apply] at hCall'
    split at hCall'
    · cases hCall'
      exact hMono (hHit ns answer hHit')
    · exact hMono
        (hAccounted.hits i call' ns answer hCall' hHit')

end Accounted

variable [DecidableEq Vec]

/- What the cache holds are rows of the namespace asked. -/
def CacheTruthful (s : Cached Vec F D) : Prop :=
  ∀ key e, s.cache.results.peek key = some e →
    Truthful s key.namespace e.results.readFrom
      e.results.memories

variable [LE F] [LT F] [DecidableLE F] [DecidableLT F]
variable [LT D] [DecidableLT D]
variable {backend : Backend Vec F D}
variable {s t : Cached Vec F D}

omit [LT F] [DecidableLT F] in
theorem Accounted.advance
    {env : Env Vec F} {s' : Cached Vec F D} {j : Nat}
    {call call' : RecallCall Vec F D}
    (hAccounted : Accounted env s)
    (hCache : CacheTruthful s)
    (hCall : s.recalls j = some call)
    (hOwn :
      ∀ q found, call.stage = .rows q found →
        ∀ m ∈ s.sys.world.db.getMemoriesByIds
            (found.map Prod.fst),
          m.namespace = q.namespace)
    (hAdvance : Advance backend s call s' call') :
    Accounted env (s'.setRecall j call') := by
  have hHits := hAccounted.hits j call
  have hRead := hAccounted.rows j call
  cases hAdvance with
  | embed hStage =>
      exact hAccounted.setRecall (.refl _) rfl
        ⟨rfl, rfl, rfl, rfl, rfl⟩ (fun _ _ h => by cases h)
        (fun ns answer => hHits ns answer hCall)
  | generation hStage =>
      exact hAccounted.setRecall (.refl _) rfl
        ⟨rfl, rfl, rfl, rfl, rfl⟩ (fun _ _ h => by cases h)
        (fun ns answer => hHits ns answer hCall)
  | lookup hStage =>
      exact hAccounted.setRecall (.refl _) rfl
        ⟨rfl, rfl, rfl, rfl, rfl⟩ (fun _ _ h => by cases h)
        (fun ns answer => hHits ns answer hCall)
  | @hit q currentGen answer hStage hGet =>
      refine hAccounted.setRecall (.refl _) rfl
        ⟨rfl, rfl, rfl, rfl, rfl⟩ (fun _ _ h => by cases h) ?_
      intro ns answer' h
      cases h
      unfold RecallCache.getResults at hGet
      split at hGet
      · rename_i entry hPeek
        split at hGet
        · cases hGet
          exact hCache q.key entry hPeek
        · cases hGet
      · cases hGet
  | miss hStage =>
      exact hAccounted.setRecall (.refl _) rfl
        ⟨rfl, rfl, rfl, rfl, rfl⟩ (fun _ _ h => by cases h)
        (fun ns answer => hHits ns answer hCall)
  | search hStage =>
      refine hAccounted.setRecall (.refl _) rfl
        ⟨rfl, rfl, rfl, rfl, rfl⟩ ?_
        (fun ns answer => hHits ns answer hCall)
      intro ns memories h
      cases h
      exact .nil (Nat.le_refl _)
  | @rows q found hStage =>
      refine hAccounted.setRecall (.refl _) rfl
        ⟨rfl, rfl, rfl, rfl, rfl⟩ ?_
        (fun ns answer => hHits ns answer hCall)
      intro ns memories h
      cases h
      have hBegun := hRead _ _ hCall (by rw [hStage]; rfl)
      refine ⟨hBegun.1, fun m hm => ?_⟩
      have hFetched := Recall.mem_of_mem_order hm
      have hRow := (Sqlite.mem_getMemoriesByIds hFetched).1
      constructor
      · rw [← hOwn q found hStage m hFetched]
        exact hAccounted.ordered.sound.world.rows _ hRow
      · intro c hc _ hId
        exact hAccounted.shown c hc _ hRow hId
  | @rank q ordered reranked tracker stage hStage hNext =>
      refine hAccounted.setRecall (.refl _) rfl
        ⟨rfl, rfl, rfl, rfl, rfl⟩ ?_
        (fun ns answer => hHits ns answer hCall)
      have hOrdered := hRead q.namespace ordered hCall
        (by rw [hStage]; rfl)
      have hRanked : ∀ results,
          results = Recall.rank backend.scoring q.req
            s.sys.world.clock ordered reranked →
          Truthful s q.namespace call.readFrom
            (results.map (fun r => r.memory)) := by
        rintro results rfl
        refine hOrdered.subset fun m hm => ?_
        rcases List.mem_map.mp hm with ⟨r, hr, rfl⟩
        exact Recall.memory_of_mem_rank hr
      intro ns memories h
      rcases hNext with rfl | ⟨ids, rfl⟩
      · cases h
        exact hRanked _ rfl
      · cases h
        exact hRanked _ rfl
  | flush hStage =>
      refine hAccounted.setRecall
        (Sqlite.touchedRows_updateLastAccessed _ _ _) rfl
        ⟨rfl, rfl, rfl, rfl, rfl⟩ ?_
        (fun ns answer => hHits ns answer hCall)
      intro ns memories h
      exact hRead ns memories hCall (by rw [hStage]; exact h)
  | put hStage =>
      exact hAccounted.setRecall (.refl _) rfl
        ⟨rfl, rfl, rfl, rfl, rfl⟩ (fun _ _ h => by cases h)
        (fun ns answer => hHits ns answer hCall)
  | validate hStage =>
      exact hAccounted.setRecall (.refl _) rfl
        ⟨rfl, rfl, rfl, rfl, rfl⟩ (fun _ _ h => by cases h)
        (fun ns answer => hHits ns answer hCall)
  | stamp hStage =>
      exact hAccounted.setRecall
        (Sqlite.touchedRows_updateLastValidated _ _ _) rfl
        ⟨rfl, rfl, rfl, rfl, rfl⟩ (fun _ _ h => by cases h)
        (fun ns answer => hHits ns answer hCall)
  | finish hRead =>
      exact hAccounted.setRecall (.refl _) rfl
        ⟨rfl, rfl, rfl, rfl, rfl⟩ (fun _ _ h => by cases h)
        (fun ns answer => hHits ns answer hCall)

omit [LT F] [DecidableLT F] in
/- What a recall puts into the cache are rows it has read. -/
theorem CacheTruthful.advance
    {env : Env Vec F} {s' : Cached Vec F D} {j : Nat}
    {call call' : RecallCall Vec F D}
    (hAccounted : Accounted env s)
    (hCache : CacheTruthful s)
    (hCall : s.recalls j = some call)
    (hAdvance : Advance backend s call s' call') :
    ∀ key e, s'.cache.results.peek key = some e →
      Truthful s key.namespace e.results.readFrom
        e.results.memories := by
  cases hAdvance with
  | put hStage =>
      intro key e h
      rcases Lru.peek_put h with ⟨rfl, rfl⟩ | ⟨_, hOld⟩
      · exact hAccounted.rows j call _ _ hCall
          (by rw [hStage]; rfl)
      · exact hCache key e hOld
  | _ => exact hCache

------------------------------------------------------------
-- Invariants of Runs
------------------------------------------------------------

omit [DecidableEq Vec] [LE F] [LT F] [DecidableLE F]
  [DecidableLT F] [LT D] [DecidableLT D] in
/- A step that is about no recall. -/
theorem Accounted.wait
    {env : Env Vec F}
    (hAccounted : Accounted env s)
    (hOrdered : Ordered env t.sys)
    (hRecalls : t.recalls = s.recalls)
    (hTime : t.time = s.time + 1)
    (hCommitted : s.sys.committed ⊆ t.sys.committed)
    (hChanges :
      ∀ c ∈ t.changes, c ∈ s.changes ∨
        (c.namespace, c.id) ∈ s.sys.committed ∧
          c.time = s.time)
    (hShown :
      ∀ c ∈ t.changes, ∀ r ∈ t.sys.world.db.memories,
        r.id = c.id →
          c.deleted = false ∧ r.tInvalid.isSome = true)
    (hBumped :
      ∀ c ∈ t.changes,
        (∃ b ∈ t.bumps, b.scope = c.namespace ∧
          c.time < b.time) ∨
        t.owed c.call = some c.namespace ∨
        t.Forgetting c.call c.namespace) :
    Accounted env t := by
  have hMono :
      ∀ {ns readFrom memories},
        Truthful s ns readFrom memories →
          Truthful t ns readFrom memories :=
    fun h => h.mono (by omega) hCommitted
      (fun c hc => (hChanges c hc).imp_right
        (fun hNew => hNew.2.ge))
  constructor
  case ordered => exact hOrdered
  case changed =>
    intro c hc
    rcases hChanges c hc with hOld | ⟨hKnown, hNow⟩
    · rcases hAccounted.changed c hOld with ⟨hKnown, hPast⟩
      exact ⟨hCommitted hKnown, by omega⟩
    · exact ⟨hCommitted hKnown, by omega⟩
  case shown => exact hShown
  case bumped => exact hBumped
  case rows =>
    intro j call ns memories hCall hRows
    rw [hRecalls] at hCall
    exact hMono (hAccounted.rows j call ns memories hCall hRows)
  case hits =>
    intro j call ns answer hCall hHit
    rw [hRecalls] at hCall
    exact hMono (hAccounted.hits j call ns answer hCall hHit)

omit [DecidableEq Vec] [LE F] [LT F] [DecidableLE F]
  [DecidableLT F] [LT D] [DecidableLT D] in
/- The changes of a step are of rows there are. -/
theorem Accounted.mem_changes
    {env : Env Vec F} {i : Nat} {task next : Task Vec F}
    {c : Change}
    (hAccounted : Accounted env s)
    (h :
      c ∈ task.changes i s.time s.sys.world.db.memories
        next) :
    c.call = i ∧ c.time = s.time ∧
      c.deleted = (task.changedIds next).2 ∧
      c.id ∈ (task.changedIds next).1 ∧
      (c.namespace, c.id) ∈ s.sys.committed ∧
      ∃ r ∈ s.sys.world.db.memories,
        r.namespace = c.namespace ∧ r.id = c.id := by
  rcases List.mem_map.mp h with ⟨r, hr, rfl⟩
  rcases List.mem_filter.mp hr with ⟨hMem, hIn⟩
  exact ⟨rfl, rfl, rfl, of_decide_eq_true hIn,
    hAccounted.ordered.sound.world.rows r hMem,
    r, hMem, rfl, rfl⟩

omit [DecidableEq Vec] [LT D] [DecidableLT D] in
/- A change of the rows shows in them, as do the old ones. -/
theorem Accounted.step_shown
    {env : Env Vec F} {service : MemoryService F} {i : Nat}
    {task : Task Vec F} {c : Change}
    (hAccounted : Accounted env s)
    (hLive : s.sys.live i = some task)
    (hc :
      c ∈ s.changes ++
        task.changes i s.time s.sys.world.db.memories
          (task.step env service s.sys.world).2) :
    ∀ r ∈ (task.step env service s.sys.world).1.db.memories,
      r.id = c.id →
        c.deleted = false ∧ r.tInvalid.isSome = true := by
  intro r hr hId
  have hKnown : (c.namespace, c.id) ∈ s.sys.committed := by
    rcases List.mem_append.mp hc with hOld | hNew
    · exact (hAccounted.changed c hOld).1
    · exact (hAccounted.mem_changes hNew).2.2.2.2.1
  cases task.step_changed env service s.sys.world with
  | keep hIds hRows =>
      rcases List.mem_append.mp hc with hOld | hNew
      · exact hAccounted.shown c hOld r (hRows ▸ hr) hId
      · have hIn := (hAccounted.mem_changes hNew).2.2.2.1
        rw [hIds] at hIn
        cases hIn
  | @commit req ctx opId startedAt hTask hIds hOwes hRows =>
      rw [hRows] at hr
      rcases Write.mem_rows hr with
        ⟨hIn, hInvalid, r₀, hr₀, rfl⟩ | ⟨hOut, hOldRow⟩
      · refine ⟨?_, by rw [hInvalid]; rfl⟩
        rcases List.mem_append.mp hc with hOld | hNew
        · rcases List.mem_append.mp hr₀ with hMem | hRow
          · exact (hAccounted.shown c hOld r₀ hMem hId).1
          · -- the new row has an id that was not known
            rw [List.mem_singleton.mp hRow] at hId
            subst hTask
            exact absurd ⟨_, hKnown, hId.symm⟩
              (hAccounted.ordered.not_known hLive)
        · rw [(hAccounted.mem_changes hNew).2.2.1, hIds]
      · rcases List.mem_append.mp hOldRow with hMem | hRow
        · rcases List.mem_append.mp hc with hOld | hNew
          · exact hAccounted.shown c hOld r hMem hId
          · have hIn := (hAccounted.mem_changes hNew).2.2.2.1
            rw [hIds, ← hId] at hIn
            exact absurd hIn hOut
        · rw [List.mem_singleton.mp hRow] at hId
          subst hTask
          exact absurd ⟨_, hKnown, hId.symm⟩
            (hAccounted.ordered.not_known hLive)
  | delete hTask hIds hNext hRows =>
      rw [hRows] at hr
      rcases List.mem_filter.mp hr with ⟨hMem, hOther⟩
      rcases List.mem_append.mp hc with hOld | hNew
      · exact hAccounted.shown c hOld r hMem hId
      · have hIn := (hAccounted.mem_changes hNew).2.2.2.1
        rw [hIds, ← hId] at hIn
        exact absurd (List.mem_singleton.mp hIn)
          (by simpa using hOther)

omit [DecidableEq Vec] [LT D] [DecidableLT D] in
/- A call that runs on, while another one takes a step. -/
theorem Forgetting.next
    {env : Env Vec F} {service : MemoryService F}
    {e : Core.Event F} {i : Nat} {ns : String}
    (hForgetting : s.Forgetting i ns)
    (hNext : s.sys.next env service e = some t.sys)
    (hStep : e ≠ .step i)
    (hFail : ∀ err, e ≠ .fail i err)
    (hCrash : e ≠ .crash) :
    t.Forgetting i ns := by
  rcases hForgetting with
    ⟨ids, p, target, opId, startedAt, hLive, hTarget⟩
  refine ⟨ids, p, target, opId, startedAt, ?_, hTarget⟩
  rcases System.live_next hNext hLive with
    hSame | ⟨hEvent, _⟩ | ⟨err, hEvent, _⟩ | hEvent
  · exact hSame
  · exact absurd hEvent hStep
  · exact absurd hEvent (hFail err)
  · exact absurd hEvent hCrash

omit [DecidableEq Vec] [LT D] [DecidableLT D] in
/- After a step of a call every change has its bump. -/
theorem Accounted.step_bumped
    {env : Env Vec F} {service : MemoryService F}
    {i : Nat} {task : Task Vec F} {c : Change}
    (hAccounted : Accounted env s)
    (hOwed : s.owed i = none)
    (hLive : s.sys.live i = some task)
    (hNext :
      s.sys.next env service (.step i) = some t.sys)
    (hOwn : Confined s (.sys (.step i)))
    (hBumps : t.bumps = s.bumps)
    (hOwes :
      t.owed =
        Function.update s.owed i
          (task.owes
            (task.step env service s.sys.world).2))
    (hc :
      c ∈ s.changes ++
        task.changes i s.time s.sys.world.db.memories
          (task.step env service s.sys.world).2) :
    (∃ b ∈ t.bumps, b.scope = c.namespace ∧
      c.time < b.time) ∨
    t.owed c.call = some c.namespace ∨
    t.Forgetting c.call c.namespace := by
  rw [hBumps, hOwes, Function.update_apply]
  rcases List.mem_append.mp hc with hOld | hNew
  · rcases hAccounted.bumped c hOld with
      hDone | hOwes | hForgetting
    · exact Or.inl hDone
    · right
      left
      split
      · rename_i hSame
        rw [hSame, hOwed] at hOwes
        cases hOwes
      · exact hOwes
    · right
      by_cases hSame : c.call = i
      · -- the forget completes its op and owes its bump
        left
        rcases hForgetting with
          ⟨ids, p, target, opId, startedAt, hAt, hTarget⟩
        rw [hSame] at hAt
        cases hLive.symm.trans hAt
        rw [if_pos hSame, ← hTarget]
        rfl
      · exact Or.inr (hForgetting.next hNext
          (by simpa using Ne.symm hSame) (by simp) (by simp))
  · right
    rcases hAccounted.mem_changes hNew with
      ⟨hCall, _, _, hIn, hKnown, r, hr, hNs, hId⟩
    rw [if_pos hCall]
    cases task.step_changed env service s.sys.world with
    | keep hIds hRows =>
        rw [hIds] at hIn
        cases hIn
    | @commit req ctx opId startedAt hTask hIds hOwes hRows =>
        left
        rw [hIds, ← hId] at hIn
        rw [hOwes, ← hNs]
        exact congrArg some
          (hOwn req ctx opId startedAt (hTask ▸ hLive) r hr
            hIn).symm
    | @delete ids p target opId startedAt hTask hIds hTo
        hRows =>
        right
        rw [hIds] at hIn
        have hSame := List.mem_singleton.mp hIn
        refine ⟨ids, p, target, opId, startedAt, ?_, ?_⟩
        · rw [hCall, System.live_step hNext hLive, hTo]
        · subst hTask
          have hTarget :=
            (hAccounted.ordered.sound.forgets i _ hLive).2
              target rfl
          have hKey :=
            hAccounted.ordered.inv.committed_injective _
              hTarget _ hKnown hSame.symm
          exact congrArg Prod.fst hKey

/- What holds of changes and of the rows of the cache. -/
structure Reliable
    (env : Env Vec F)
    (s : Cached Vec F D) : Prop where
  accounted : Accounted env s
  cache : CacheTruthful s

omit [LE F] [LT F] [DecidableLE F] [DecidableLT F] [LT D]
  [DecidableLT D] in
theorem CacheTruthful.mono
    (hCache : CacheTruthful s)
    (hResults : t.cache.results = s.cache.results)
    (hTime : s.time ≤ t.time)
    (hCommitted : s.sys.committed ⊆ t.sys.committed)
    (hChanges :
      ∀ c ∈ t.changes, c ∈ s.changes ∨ s.time ≤ c.time) :
    CacheTruthful t := by
  intro key e h
  rw [hResults] at h
  exact (hCache key e h).mono hTime hCommitted hChanges

omit [LE F] [LT F] [DecidableLE F] [DecidableLT F] [LT D]
  [DecidableLT D] in
theorem Reliable.start
    {env : Env Vec F} {sys : System Vec F}
    (config : CacheConfig)
    (hIdle : Idle env sys) :
    Reliable env (start sys config : Cached Vec F D) where
  accounted := .start config hIdle
  cache key e h := by
    change (Lru.empty _).peek key = some e at h
    rw [Lru.peek_empty] at h
    cases h

omit [LT D] [DecidableLT D] in
/- A step of a store or forget call, or its failure. -/
theorem Reliable.sys
    {env : Env Vec F} {service : MemoryService F}
    {e : Core.Event F} {sys : System Vec F}
    (hReliable : Reliable env s)
    (hNext : s.sys.next env service e = some sys)
    (hStep : ∀ i, e ≠ .step i)
    (hCrash : e ≠ .crash)
    (hOwn : Confined s (.sys e)) :
    Reliable env { s with sys := sys, time := s.time + 1 } := by
  have hAccounted := hReliable.accounted
  have hKnown := System.committed_subset hNext
  constructor
  case cache =>
    exact hReliable.cache.mono rfl (Nat.le_succ _) hKnown
      (fun c hc => Or.inl hc)
  case accounted =>
    refine hAccounted.wait (hAccounted.ordered.next hNext) rfl
      rfl hKnown (fun c hc => Or.inl hc)
      (fun c hc r hr => ?_) (fun c hc => ?_)
    · cases System.rowChange hNext with
      | keep hRows =>
          exact hAccounted.shown c hc r (hRows ▸ hr)
      | commit => exact absurd rfl (hStep _)
      | delete p hRows =>
          rw [hRows] at hr
          exact hAccounted.shown c hc r
            (List.mem_of_mem_filter hr)
    · refine (hAccounted.bumped c hc).imp_right fun hOpen =>
        hOpen.imp_right fun hForgetting => ?_
      refine hForgetting.next hNext (hStep _) ?_ hCrash
      rintro err rfl
      exact hOwn _ hForgetting

omit [LT D] [DecidableLT D] in
theorem Reliable.step
    {env : Env Vec F} {service : MemoryService F}
    {i : Nat} {task : Task Vec F} {sys : System Vec F}
    (hReliable : Reliable env s)
    (hOwed : s.owed i = none)
    (hLive : s.sys.live i = some task)
    (hNext : s.sys.next env service (.step i) = some sys)
    (hOwn : Confined s (.sys (.step i))) :
    Reliable env
      { s with
        sys := sys
        owed :=
          Function.update s.owed i
            (task.owes (task.step env service s.sys.world).2)
        time := s.time + 1
        changes :=
          s.changes ++
            task.changes i s.time s.sys.world.db.memories
              (task.step env service s.sys.world).2 } := by
  have hAccounted := hReliable.accounted
  have hKnown := System.committed_subset hNext
  have hWorld :
      sys.world = (task.step env service s.sys.world).1 := by
    cases System.next_eq_some hNext with
    | step _ task' hLive' =>
        cases hLive.symm.trans hLive'
        rfl
  constructor
  case cache =>
    refine hReliable.cache.mono rfl (Nat.le_succ _) hKnown
      (fun c hc => ?_)
    exact (List.mem_append.mp hc).imp_right fun hNew =>
      (hAccounted.mem_changes hNew).2.1.ge
  case accounted =>
    refine hAccounted.wait (hAccounted.ordered.next hNext) rfl
      rfl hKnown (fun c hc => ?_)
      (fun c hc => ?_) (fun c hc => ?_)
    · refine (List.mem_append.mp hc).imp_right fun hNew => ?_
      rcases hAccounted.mem_changes hNew with
        ⟨_, hNow, _, _, hRow, _⟩
      exact ⟨hRow, hNow⟩
    · change ∀ r ∈ sys.world.db.memories, _
      rw [hWorld]
      exact hAccounted.step_shown hLive hc
    · exact hAccounted.step_bumped hOwed hLive hNext hOwn
        rfl rfl hc

omit [LE F] [LT F] [DecidableLE F] [DecidableLT F] [LT D]
  [DecidableLT D] in
theorem Reliable.bump
    {env : Env Vec F} {i : Nat} {ns : String}
    (hReliable : Reliable env s)
    (hOwed : s.owed i = some ns) :
    Reliable env
      { s with
        cache := s.cache.bumpGeneration ns
        owed := Function.update s.owed i none
        time := s.time + 1
        bumps := s.bumps.bump ns s.time } := by
  have hAccounted := hReliable.accounted
  constructor
  case cache =>
    exact hReliable.cache.mono rfl (Nat.le_succ _)
      (fun _ h => h) (fun _ hc => Or.inl hc)
  case accounted =>
    refine hAccounted.wait hAccounted.ordered rfl rfl
      (fun _ h => h) (fun c hc => Or.inl hc)
      hAccounted.shown (fun c hc => ?_)
    rcases hAccounted.bumped c hc with
      ⟨b, hb, hDone⟩ | hOwes | hForgetting
    · exact Or.inl ⟨b, List.mem_append_left _ hb, hDone⟩
    · by_cases hSame : c.call = i
      · -- this is the bump that the change was waiting for
        left
        rw [hSame, hOwed] at hOwes
        cases hOwes
        exact ⟨_,
          List.mem_append_right _ (List.mem_singleton_self _),
          rfl, (hAccounted.changed c hc).2⟩
      · refine Or.inr (Or.inl ?_)
        change Function.update s.owed i none c.call = _
        rw [Function.update_apply, if_neg hSame, hOwes]
    · exact Or.inr (Or.inr hForgetting)

omit [LT F] [DecidableLT F] in
theorem Reliable.advance
    {j : Nat} {call : RecallCall Vec F D}
    (hReliable : Reliable backend.env s)
    (hCall : s.recalls j = some call)
    (hOwn : Confined s (.advance j)) :
    Reliable backend.env
      ((s.advance backend call).1.setRecall j
        (s.advance backend call).2) := by
  have hAccounted := hReliable.accounted
  have hAdvance := advance_eq backend s call
  refine ⟨hAccounted.advance hReliable.cache hCall
    (fun q found hStage => hOwn call q found hCall hStage)
    hAdvance, fun key e h => ?_⟩
  have hTruthful :=
    hReliable.cache.advance hAccounted hCall hAdvance key e h
  rcases hAdvance.same with ⟨hCommitted, hTime, hChanges, _⟩
  refine hTruthful.mono ?_ ?_ (fun c hc => Or.inl ?_)
  · change s.time ≤ (s.advance backend call).1.time + 1
    rw [hTime]
    exact Nat.le_succ _
  · exact fun k hk => hCommitted ▸ hk
  · exact hChanges ▸ hc

omit [LE F] [LT F] [DecidableLE F] [DecidableLT F] [LT D]
  [DecidableLT D] in
theorem Reliable.setRecall
    {env : Env Vec F} {j : Nat} {call : RecallCall Vec F D}
    (hReliable : Reliable env s)
    (hRead :
      ∀ ns memories,
        call.stage.readRows = some (ns, memories) →
          Truthful s ns call.readFrom memories)
    (hHit :
      ∀ ns answer, call.hit = some (ns, answer) →
        Truthful s ns answer.readFrom answer.memories) :
    Reliable env (s.setRecall j call) where
  accounted :=
    hReliable.accounted.setRecall (.refl _) rfl
      ⟨rfl, rfl, rfl, rfl, rfl⟩ hRead hHit
  cache :=
    hReliable.cache.mono rfl (Nat.le_succ _) (fun _ h => h)
      (fun _ hc => Or.inl hc)

omit [LE F] [LT F] [DecidableLE F] [DecidableLT F] [LT D]
  [DecidableLT D] in
/- A step of the accesses that are still to be recorded. -/
theorem Reliable.touched
    {env : Env Vec F} {db : Sqlite}
    (hReliable : Reliable env s)
    (hRows : Sqlite.TouchedRows s.sys.world.db db)
    (hSys :
      t.sys = { s.sys with
        world := { s.sys.world with db := db } })
    (hSame :
      t.recalls = s.recalls ∧ t.bumps = s.bumps ∧
        t.time = s.time + 1 ∧ t.owed = s.owed ∧
          t.changes = s.changes ∧ t.cache = s.cache) :
    Reliable env t := by
  rcases t with ⟨_, _, tracker, background, _, _, _, _, _⟩
  rcases hSame with ⟨rfl, rfl, rfl, rfl, rfl, rfl⟩
  subst hSys
  have hAccounted := hReliable.accounted
  constructor
  case cache =>
    exact hReliable.cache.mono rfl (Nat.le_succ _)
      (fun _ h => h) (fun c hc => Or.inl hc)
  case accounted =>
    exact hAccounted.wait (hAccounted.ordered.touched hRows)
      rfl rfl (fun _ h => h) (fun c hc => Or.inl hc)
      (hAccounted.shown_touched hRows) hAccounted.bumped

theorem Reliable.next
    {e : Event F}
    (hReliable : Reliable backend.env s)
    (hNext : s.next backend e = some t)
    (hOwn : Confined s e) :
    Reliable backend.env t := by
  have hAccounted := hReliable.accounted
  cases next_eq_some hNext with
  | sys e sys hStep hUp _ hNextSys =>
      exact hReliable.sys hNextSys hStep hUp.1 hOwn
  | step i task sys hOwed hLive hNextSys =>
      exact hReliable.step hOwed hLive hNextSys hOwn
  | bump i ns hOwed => exact hReliable.bump hOwed
  | «recall» j req hNone =>
      exact hReliable.setRecall (fun _ _ h => by cases h)
        (fun _ _ h => by cases h)
  | advance j call hCall =>
      exact hReliable.advance hCall hOwn
  | failRecall j err call stage hCall hFail =>
      refine hReliable.setRecall (fun ns memories h => ?_)
        (fun ns answer => hAccounted.hits j call ns answer
          hCall)
      have hRead := hAccounted.rows j call ns memories hCall
      unfold RecallStage.fail at hFail
      split at hFail <;> cases hFail
      case h_5 hStage =>
        exact hRead (by rw [hStage]; exact h)
      all_goals cases h
  | drain _ =>
      exact hReliable.touched (.refl _) rfl
        ⟨rfl, rfl, rfl, rfl, rfl, rfl⟩
  | flushed ok =>
      cases ok with
      | false =>
          exact hReliable.touched (.refl _) rfl
            ⟨rfl, rfl, rfl, rfl, rfl, rfl⟩
      | true =>
          exact hReliable.touched
            (Sqlite.touchedRows_updateLastAccessed _ _ _) rfl
            ⟨rfl, rfl, rfl, rfl, rfl, rfl⟩

------------------------------------------------------------
-- Later Recalls
------------------------------------------------------------

omit [LT F] [DecidableLT F] in
theorem Advance.asksFrom
    {s' : Cached Vec F D} {call call' : RecallCall Vec F D}
    {now : Nat}
    (hAdvance : Advance backend s call s' call')
    (hNow : now ≤ s.time)
    (hAsks : call.AsksFrom now) :
    call'.AsksFrom now := by
  cases hAdvance with
  | lookup hStage => exact fun _ => hNow
  | hit hStage hGet =>
      exact fun _ => hAsks (Or.inr ⟨_, _, hStage⟩)
  | rank hStage hNext =>
      refine fun h => hAsks (Or.inl (h.resolve_right ?_))
      rcases hNext with rfl | ⟨ids, rfl⟩ <;> simp
  | _ =>
      exact fun h =>
        hAsks (Or.inl (h.resolve_right (by simp)))

/- What a later state has of an earlier one. -/
structure Since (s t : Cached Vec F D) : Prop where
  time : s.time ≤ t.time
  bumps : s.bumps ⊆ t.bumps
  changes : s.changes ⊆ t.changes
  asks :
    ∀ j call, s.recalls j = none →
      t.recalls j = some call → call.AsksFrom s.time

namespace Since

variable {s₀ : Cached Vec F D}

omit [DecidableEq Vec] [LE F] [LT F] [DecidableLE F]
  [DecidableLT F] [LT D] [DecidableLT D] in
theorem refl (s : Cached Vec F D) : Since s s where
  time := Nat.le_refl _
  bumps _ h := h
  changes _ h := h
  asks j call hNone hCall := by
    rw [hNone] at hCall
    cases hCall

omit [DecidableEq Vec] [LE F] [LT F] [DecidableLE F]
  [DecidableLT F] [LT D] [DecidableLT D] in
theorem wait
    (hSince : Since s₀ s)
    (hRecalls : t.recalls = s.recalls)
    (hTime : t.time = s.time + 1)
    (hBumps : s.bumps ⊆ t.bumps)
    (hChanges : s.changes ⊆ t.changes) :
    Since s₀ t where
  time := by
    have hTime₀ := hSince.time
    omega
  bumps := fun _ h => hBumps (hSince.bumps h)
  changes := fun _ h => hChanges (hSince.changes h)
  asks j call hNone hCall :=
    hSince.asks j call hNone (hRecalls ▸ hCall)

omit [DecidableEq Vec] [LE F] [LT F] [DecidableLE F]
  [DecidableLT F] [LT D] [DecidableLT D] in
theorem setRecall
    {j : Nat} {call : RecallCall Vec F D}
    (hSince : Since s₀ s)
    (hRecalls : t.recalls = s.recalls)
    (hTime : t.time = s.time)
    (hBumps : t.bumps = s.bumps)
    (hChanges : t.changes = s.changes)
    (hAsks : s₀.recalls j = none → call.AsksFrom s₀.time) :
    Since s₀ (t.setRecall j call) where
  time := by
    change s₀.time ≤ t.time + 1
    have hTime₀ := hSince.time
    omega
  bumps := fun b hb => by
    change b ∈ t.bumps
    exact hBumps ▸ hSince.bumps hb
  changes := fun c hc => by
    change c ∈ t.changes
    exact hChanges ▸ hSince.changes hc
  asks i call' hNone hCall' := by
    change Function.update t.recalls j (some call) i = _
      at hCall'
    rw [hRecalls, Function.update_apply] at hCall'
    split at hCall'
    · rename_i hSame
      cases hCall'
      exact hAsks (hSame ▸ hNone)
    · exact hSince.asks i call' hNone hCall'

theorem next
    {e : Event F}
    (hSince : Since s₀ s)
    (hNext : s.next backend e = some t) :
    Since s₀ t := by
  cases next_eq_some hNext with
  | sys e sys _ _ _ _ =>
      exact hSince.wait rfl rfl (fun _ h => h) (fun _ h => h)
  | step i task sys _ _ _ =>
      exact hSince.wait rfl rfl (fun _ h => h)
        (fun _ h => List.mem_append_left _ h)
  | bump i ns _ =>
      exact hSince.wait rfl rfl
        (fun _ h => List.mem_append_left _ h) (fun _ h => h)
  | «recall» j req _ =>
      refine hSince.setRecall rfl rfl rfl rfl (fun _ h => ?_)
      rcases h with h | ⟨q, currentGen, h⟩ <;> cases h
  | advance j call hCall =>
      have hAdvance := advance_eq backend s call
      rcases hAdvance.same with
        ⟨_, hTime, hChanges, hRecalls, hBumps⟩
      exact hSince.setRecall hRecalls hTime hBumps hChanges
        (fun hNone => hAdvance.asksFrom hSince.time
          (hSince.asks j call hNone hCall))
  | failRecall j err call stage hCall hFail =>
      refine hSince.setRecall rfl rfl rfl rfl
        (fun hNone h =>
          hSince.asks j call hNone hCall
            (Or.inl (h.resolve_right ?_)))
      rintro ⟨q, currentGen, rfl⟩
      unfold RecallStage.fail at hFail
      split at hFail <;> cases hFail
  | drain _ =>
      exact hSince.wait rfl rfl (fun _ h => h) (fun _ h => h)
  | flushed ok =>
      cases ok <;>
        exact hSince.wait rfl rfl (fun _ h => h)
          (fun _ h => h)

end Since

------------------------------------------------------------
-- Returned Writes
------------------------------------------------------------

/-
  After a store or forget call has returned, a recall that
  begins or looks its answer up later is given no row from
  the cache that the call has deleted, and none that it has
  invalidated as it was before.  The process has started with
  a journal that has no pending op.
-/
theorem returned_write_invalidates
    {sys : System Vec F} {config : CacheConfig}
    {es fs : List (Event F)} {i j : Nat}
    {call : RecallCall Vec F D} {ns : String}
    {answer : Answer F D}
    (hIdle : Idle backend.env sys)
    (hRun :
      ((machine backend).restrict Confined).Run
        (start sys config) es s)
    (hReturned : s.Returned i)
    (hLater :
      ((machine backend).restrict Confined).Run s fs t)
    (hCall : t.recalls j = some call)
    (hHit : call.hit = some (ns, answer))
    (hBegun : s.recalls j = none ∨ s.time ≤ call.lookupAt) :
    ∀ c ∈ s.changes, c.call = i →
      ∀ r ∈ answer.results, r.memory.id = c.id →
        c.deleted = false ∧
          r.memory.tInvalid.isSome = true := by
  intro c hc hOfCall r hr hId
  have hReliable : Reliable backend.env s :=
    hRun.restrict_invariant
      (fun _ _ _ h hNext hOwn => h.next hNext hOwn)
      (.start config hIdle)
  have hReliable' : Reliable backend.env t :=
    hLater.restrict_invariant
      (fun _ _ _ h hNext hOwn => h.next hNext hOwn) hReliable
  have hFresh : s.Fresh :=
    hRun.of_restrict.invariant
      (fun _ _ _ h hNext => h.next hNext) (.start sys config)
  have hFresh' : t.Fresh :=
    hLater.of_restrict.invariant
      (fun _ _ _ h hNext => h.next hNext) hFresh
  have hSince : Since s t :=
    hLater.of_restrict.invariant
      (fun _ _ _ h hNext => h.next hNext) (.refl s)
  -- the call has made its bump
  rcases hReturned with ⟨hOwed, hDone⟩
  obtain ⟨b, hb, hScope, hTime⟩ :
      ∃ b ∈ s.bumps, b.scope = c.namespace ∧
        c.time < b.time := by
    rcases hReliable.accounted.bumped c hc with
      hBumped | hOwes | ⟨ids, p, target, opId, at', hAt, _⟩
    · exact hBumped
    · rw [hOfCall, hOwed] at hOwes
      cases hOwes
    · rw [hOfCall] at hAt
      rw [hAt] at hDone
      cases hDone
  -- the bump is of the namespace that the recall asked
  have hTruthful :=
    hReliable'.accounted.hits j call ns answer hCall hHit
  rcases hTruthful.2 r.memory (List.mem_map_of_mem hr) with
    ⟨hKnown, hShown⟩
  have hChange := hSince.changes hc
  have hKey :=
    hReliable'.accounted.ordered.inv.committed_injective _
      hKnown _ (hReliable'.accounted.changed c hChange).1 hId
  have hNs : ns = c.namespace := congrArg Prod.fst hKey
  -- and it was over when the recall looked its answer up
  have hAsked : s.time ≤ call.lookupAt := by
    rcases hBegun with hNone | hAfter
    · exact hSince.asks j call hNone hCall
        (Or.inl (by rw [hHit]; rfl))
    · exact hAfter
  have hPast := hFresh.valid.past b hb
  have hRead :=
    ((hFresh'.recalls j call hCall).hit ns answer hHit).2 b
      (hSince.bumps hb) (hScope.trans hNs.symm) (by omega)
  exact hShown c hChange (by omega) hId

/- Whether a step meets the condition, for computed runs. -/
def confined (s : Cached Vec F D) : Event F → Bool
| .sys (.fail _ _) => false
| .sys (.step i) =>
    match s.sys.live i with
    | some (.store _ (.commit ctx _ _)) =>
        s.sys.world.db.memories.all (fun r =>
          !decide (r.id ∈ Write.invalidateIds ctx) ||
            decide (r.namespace = ctx.namespace))
    | _ => true
| .advance j =>
    match s.recalls j with
    | some ⟨.rows q found, _, _, _⟩ =>
        (s.sys.world.db.getMemoriesByIds
          (found.map Prod.fst)).all
            (fun m => decide (m.namespace = q.namespace))
    | _ => true
| _ => true

omit [DecidableEq Vec] [LE F] [LT F] [DecidableLE F]
  [DecidableLT F] [LT D] [DecidableLT D] in
private theorem confined_of_check
    (s : Cached Vec F D)
    (e : Event F)
    (h : s.confined e = true) :
    s.Confined e := by
  cases e with
  | sys e =>
      cases e with
      | step i =>
          intro req ctx opId startedAt hLive r hr hIn
          simp only [confined, hLive] at h
          have hRow := List.all_eq_true.mp h r hr
          simpa [hIn] using hRow
      | fail i err => cases h
      | _ => exact True.intro
  | advance j =>
      rintro ⟨stage, _, _, _⟩ q found hCall rfl m hm
      simp only [confined, hCall] at h
      simpa using List.all_eq_true.mp h m hm
  | _ => exact True.intro

/- A computed run whose steps all meet the condition. -/
theorem confined_of_any
    (backend : Backend Vec F D)
    (s : Cached Vec F D)
    (es : List (Event F))
    (test : Cached Vec F D → Bool)
    (h :
      (es.foldlM
        (Machine.checked (next backend) confined) s).any
          test = true) :
    ∃ t, ((machine backend).restrict Confined).Run s es t ∧
      test t = true :=
  Machine.Run.restrict_of_any (machine backend).initial s es
    test confined_of_check h

/- A request that also asks for invalidated rows. -/
def RecallRequest.all (query : String) : RecallRequest :=
  { RecallRequest.text query with
    includeInvalidated := some true }

/- A fact is superseded, and then found in the cache. -/
theorem returned_write_invalidates_superseded :
    ∃ (t : Cached String Rat Rat)
        (call : RecallCall String Rat Rat) (ns : String)
        (answer : Answer Rat Rat),
      t.recalls 1 = some call ∧
        call.hit = some (ns, answer) ∧
        ∃ c ∈ t.changes, ∃ r ∈ answer.results,
          r.memory.id = c.id ∧ c.deleted = false ∧
            r.memory.tInvalid.isSome = true := by
  let later : List (Event Rat) :=
    .recall 0 (RecallRequest.all "cat") ::
      (List.replicate 9 (.advance 0) ++
        .recall 1 (RecallRequest.all "cat") ::
          List.replicate 4 (.advance 1))
  let found (cs : List Change)
      (t : Cached String Rat Rat) : Bool :=
    (t.recalls 1).any (fun call =>
      call.hit.any (fun hit => cs.any (fun c =>
        decide (c ∈ t.changes ∧ c.call = 1) &&
          hit.2.results.any (fun r =>
            decide (r.memory.id = c.id)))))
  rcases confined_of_any Backend.plain
    (start System.empty ⟨4, 4⟩)
    (.sys (.store 0 (.fact "cat" "is" "asleep")) ::
      (List.replicate 9 (.sys (.step 0)) ++
        .bump 0 ::
          .sys (.store 1 (.fact "cat" "is" "purring")) ::
            (List.replicate 9 (.sys (.step 1)) ++ [.bump 1])))
    (fun s =>
      decide (s.Returned 1) && (s.recalls 1).isNone &&
        (later.foldlM
          (Machine.checked (next Backend.plain) confined)
          s).any (found s.changes))
    (by decide +kernel) with ⟨s, hRun, hTest⟩
  simp only [Bool.and_eq_true, decide_eq_true_eq,
    Option.isNone_iff_eq_none] at hTest
  rcases hTest with ⟨⟨hReturned, hNone⟩, hAny⟩
  rcases confined_of_any Backend.plain s later
    (found s.changes) hAny with ⟨t, hLater, hFound⟩
  rcases (Option.any_eq_true _ _).mp hFound with
    ⟨call, hCall, hHitFound⟩
  rcases (Option.any_eq_true _ _).mp hHitFound with
    ⟨⟨ns, answer⟩, hHit, hSome⟩
  rcases List.any_eq_true.mp hSome with ⟨c, hc, hBoth⟩
  rw [Bool.and_eq_true, decide_eq_true_eq] at hBoth
  rcases hBoth with ⟨⟨hChange, hOfCall⟩, hRow⟩
  rcases List.any_eq_true.mp hRow with ⟨r, hr, hId⟩
  rw [decide_eq_true_eq] at hId
  refine ⟨t, call, ns, answer, hCall, hHit, c, hChange, r, hr,
    hId, ?_⟩
  exact returned_write_invalidates
    (start_empty _).toIdle hRun hReturned hLater hCall hHit
    (Or.inl hNone) c hc hOfCall r hr hId

/-
  A forget deletes its row and fails when it completes its
  op: it returns without its bump, and the cache goes on to
  serve the row.
-/
theorem forgotten_row_served :
    ¬ ∀ (sys : System String Rat) (config : CacheConfig)
        (s t : Cached String Rat Rat)
        (es fs : List (Event Rat)) (i j : Nat)
        (call : RecallCall String Rat Rat) (ns : String)
        (answer : Answer Rat Rat),
        Start Env.plain sys →
        (machine Backend.plain).Run (start sys config) es s →
        s.Returned i →
        (machine Backend.plain).Run s fs t →
        s.recalls j = none →
        t.recalls j = some call →
        call.hit = some (ns, answer) →
          ∀ c ∈ s.changes, c.call = i →
            ∀ r ∈ answer.results, r.memory.id = c.id →
              c.deleted = false ∧
                r.memory.tInvalid.isSome = true := by
  intro hClaim
  let later : List (Event Rat) :=
    .recall 1 (.text "tea") :: List.replicate 4 (.advance 1)
  let served (cs : List Change)
      (t : Cached String Rat Rat) : Bool :=
    (t.recalls 1).any (fun call =>
      call.hit.any (fun hit => cs.any (fun c =>
        decide (c.call = 1 ∧ c.deleted = true) &&
          hit.2.results.any (fun r =>
            decide (r.memory.id = c.id)))))
  rcases run_of_any Backend.plain
    (start System.empty ⟨4, 4⟩)
    (.sys (.store 0 (.note "tea")) ::
      (List.replicate 9 (.sys (.step 0)) ++
        .bump 0 :: .recall 0 (.text "tea") ::
          (List.replicate 9 (.advance 0) ++
            .sys (.forget 1 [Env.plainUuid 0]) ::
              (List.replicate 5 (.sys (.step 1)) ++
                [.sys (.fail 1 (.store (.sqlite "disk I/O error")))]))))
    (fun s =>
      decide (s.Returned 1) && (s.recalls 1).isNone &&
        (later.foldlM (next Backend.plain) s).any
          (served s.changes))
    (by decide +kernel) with ⟨s, hRun, hTest⟩
  simp only [Bool.and_eq_true, decide_eq_true_eq,
    Option.isNone_iff_eq_none] at hTest
  rcases hTest with ⟨⟨hReturned, hNone⟩, hAny⟩
  rcases run_of_any Backend.plain s later (served s.changes)
    hAny with ⟨t, hLater, hServed⟩
  rcases (Option.any_eq_true _ _).mp hServed with
    ⟨call, hCall, hHitServed⟩
  rcases (Option.any_eq_true _ _).mp hHitServed with
    ⟨⟨ns, answer⟩, hHit, hSome⟩
  rcases List.any_eq_true.mp hSome with ⟨c, hc, hBoth⟩
  rw [Bool.and_eq_true, decide_eq_true_eq] at hBoth
  rcases hBoth with ⟨⟨hOfCall, hDeleted⟩, hRow⟩
  rcases List.any_eq_true.mp hRow with ⟨r, hr, hId⟩
  have hKept :=
    (hClaim _ _ _ _ _ _ _ _ _ _ _ (start_empty _) hRun
      hReturned hLater hNone hCall hHit c hc hOfCall r hr
      (of_decide_eq_true hId)).1
  rw [hDeleted] at hKept
  cases hKept

end Cached

end Core

end Ferrex
