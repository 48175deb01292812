import Ferrex.Core.Rows

/-
  One live fact for each subject and predicate: what the
  conflict check is for, and when it is still right at the
  commit of the store that made it.

  Main declarations:
    * `LiveFact`, `OneLiveFact`
    * `FactKey`, `factsSince`, `watched`
    * `Current`, `Conflict.run_current`, `Current.next`
    * `Unraced`
    * `one_live_fact`
-/

------------------------------------------------------------
-- Live Facts
------------------------------------------------------------

namespace Ferrex

namespace Core

open Store

variable {Vec F : Type}
variable {env : Env Vec F} {service : MemoryService F}
variable {s t : System Vec F} {e : Event F}

/- A valid semantic row of a namespace, for a key. -/
def LiveFact
    (ns subject predicate : String)
    (r : MemoryRow) : Prop :=
  r.namespace = ns ∧ Sqlite.MatchesFact subject predicate r

instance
    (ns subject predicate : String)
    (r : MemoryRow) :
    Decidable (LiveFact ns subject predicate r) := by
  unfold LiveFact
  infer_instance

def liveFacts
    (ns subject predicate : String)
    (rows : List MemoryRow) : List MemoryRow :=
  rows.filter (fun r => LiveFact ns subject predicate r)

def OneLiveFact (rows : List MemoryRow) : Prop :=
  ∀ ns subject predicate,
    (liveFacts ns subject predicate rows).length ≤ 1

/- A new fact is one for the key that its lookup asked for. -/
theorem liveFact_row
    {ctx : StoreContext Vec F} {ns subject predicate : String}
    (h :
      LiveFact ns subject predicate (Write.row env ctx)) :
    ns = ctx.namespace ∧
      subject = Conflict.lookupSubject env ctx.req ∧
        ctx.normalizedPredicate = some predicate ∧
          ctx.memoryType = .semantic := by
  rcases h with ⟨hNs, hSubject, hPredicate, hType, _⟩
  refine ⟨hNs.symm, ?_, hPredicate, hType⟩
  simp only [Write.row, Write.buildMemory,
    Option.map_eq_some_iff] at hSubject
  rcases hSubject with ⟨subject₀, hReq, rfl⟩
  simp [Conflict.lookupSubject, hReq,
    env.trim_toLowercase]

/- What a fact is about, in its namespace. -/
structure FactKey where
  «namespace» : String
  subject : String
  predicate : String
deriving DecidableEq

/- The key of the fact that a call stores, if it is one. -/
def StoreContext.factKey
    (env : Env Vec F)
    (ctx : StoreContext Vec F) : Option FactKey :=
  if ctx.memoryType = .semantic then
    ctx.normalizedPredicate.map (fun predicate =>
      ⟨ctx.namespace, Conflict.lookupSubject env ctx.req,
        predicate⟩)
  else
    none

theorem factKey_eq_some
    {ctx : StoreContext Vec F} {predicate : String}
    (hType : ctx.memoryType = .semantic)
    (hPredicate : ctx.normalizedPredicate = some predicate) :
    ctx.factKey env =
      some ⟨ctx.namespace,
        Conflict.lookupSubject env ctx.req, predicate⟩ := by
  simp [StoreContext.factKey, hType, hPredicate]

/-
  Of the rows of the namespace the lookup of a call would
  find, at its commit, only rows that it is to invalidate.
-/
def Current
    (env : Env Vec F)
    (ctx : StoreContext Vec F)
    (rows : List MemoryRow) : Prop :=
  ∀ predicate, ctx.memoryType = .semantic →
    ctx.normalizedPredicate = some predicate →
      ∀ r ∈ rows,
        LiveFact ctx.namespace
            (Conflict.lookupSubject env ctx.req) predicate r →
          r.id ∈ Write.invalidateIds ctx

section Lookup

variable [LE F] [LT F] [DecidableLE F] [DecidableLT F]

/- A lookup that lets its call go on is current. -/
theorem Conflict.run_current
    {ctx ctx' : StoreContext Vec F} {db : Sqlite}
    (hRun : Conflict.run env ctx db = .ok ctx') :
    Current env ctx' db.memories := by
  intro predicate hType hPredicate r hr hLive
  have hFound :
      ∃ m ∈ Conflict.existing env ctx'.req predicate db,
        m.toMemoryRow = r :=
    Sqlite.mem_getMemoriesBySubjectPredicate_iff.mpr
      ⟨hr, hLive.2⟩
  rcases hFound with ⟨m, hm, rfl⟩
  unfold Conflict.run at hRun
  split at hRun
  · rename_i hOther
    cases hRun
    exact absurd hType hOther
  · split at hRun
    · cases hRun
    · rename_i predicate' hSome
      split at hRun <;> cases hRun
      · rename_i hClass
        obtain rfl : predicate' = predicate :=
          Option.some.inj (hSome.symm.trans hPredicate)
        rw [classify_eq_noConflict hClass] at hm
        cases hm
      · rename_i id hClass
        obtain rfl : predicate' = predicate :=
          Option.some.inj (hSome.symm.trans hPredicate)
        rcases classify_eq_update hClass with
          ⟨found, hOne, rfl⟩
        change m ∈ Conflict.existing env ctx.req predicate' db
          at hm
        rw [hOne] at hm
        simp [Write.invalidateIds, List.mem_singleton.mp hm]

/-
  It stays current until another call commits a fact for the
  same key.
-/
theorem Current.next
    {ctx : StoreContext Vec F}
    (hCurrent : Current env ctx s.world.db.memories)
    (hNext : s.next env service e = some t)
    (hOther :
      ∀ i req ctx' opId startedAt resp key, e = .step i →
        s.live i =
            some (.store req (.commit ctx' opId startedAt)) →
          t.live i = some (.store req (.done (.ok resp))) →
            ctx.factKey env = some key →
              ctx'.factKey env ≠ some key) :
    Current env ctx t.world.db.memories := by
  intro predicate hType hPredicate r hr hLiveFact
  cases System.rowChange hNext with
  | keep hRows =>
      exact hCurrent predicate hType hPredicate r
        (hRows ▸ hr) hLiveFact
  | commit hLive _ hRows _ hAnswer =>
      rw [hRows, Write.rows] at hr
      rcases Table.mem_update_iff.mp hr with ⟨r₀, hr₀, rfl⟩
      split at hLiveFact
      · rcases hLiveFact with ⟨_, _, _, _, hValid⟩
        simp [Sqlite.invalidateRow] at hValid
      · rename_i hKept
        rw [if_neg hKept]
        rcases List.mem_append.mp hr₀ with hOld | hNew
        · exact hCurrent predicate hType hPredicate r₀ hOld
            hLiveFact
        · -- the new row is a fact for the same key
          rw [List.mem_singleton.mp hNew] at hLiveFact
          have hKey :
              ctx.factKey env =
                some ⟨ctx.namespace,
                  Conflict.lookupSubject env ctx.req,
                  predicate⟩ :=
            factKey_eq_some hType hPredicate
          refine absurd ?_
            (hOther _ _ _ _ _ _ _ rfl hLive hAnswer hKey)
          rcases liveFact_row hLiveFact with
            ⟨hNs, hSubject, hSome, hSemantic⟩
          rw [factKey_eq_some hSemantic hSome, hNs, hSubject]
  | delete p hRows =>
      rw [hRows] at hr
      exact hCurrent predicate hType hPredicate r
        (List.mem_of_mem_filter hr) hLiveFact

end Lookup

/- A commit adds a fact in place of the one before it. -/
theorem OneLiveFact.commit
    {ctx : StoreContext Vec F} {rows : List MemoryRow}
    (hOne : OneLiveFact rows)
    (hCurrent : Current env ctx rows) :
    OneLiveFact (Write.rows env ctx rows) := by
  intro ns subject predicate
  unfold liveFacts Write.rows
  rw [Table.filter_update_out (by
    intro r
    simp [LiveFact, Sqlite.MatchesFact,
      Sqlite.invalidateRow])]
  rw [List.filter_append, List.length_append]
  by_cases hRow :
      LiveFact ns subject predicate (Write.row env ctx)
  · rcases liveFact_row hRow with ⟨rfl, rfl, hPredicate, hType⟩
    have hNone :
        rows.filter (fun r =>
          decide (LiveFact ctx.namespace
            (Conflict.lookupSubject env ctx.req) predicate
              r) &&
            !decide (r.id ∈ Write.invalidateIds ctx)) =
          [] := by
      rw [List.filter_eq_nil_iff]
      intro r hr hBoth
      simp only [Bool.and_eq_true, decide_eq_true_eq,
        Bool.not_eq_true', decide_eq_false_iff_not] at hBoth
      exact hBoth.2
        (hCurrent predicate hType hPredicate r hr hBoth.1)
    rw [hNone]
    simpa using List.length_filter_le _ [Write.row env ctx]
  · have hOld :
        (rows.filter (fun r =>
          decide (LiveFact ns subject predicate r) &&
            !decide (r.id ∈ Write.invalidateIds ctx))).length
          ≤ (liveFacts ns subject predicate rows).length := by
      unfold liveFacts
      apply List.Sublist.length_le
      exact List.monotone_filter_right rows
        (fun r hr => (Bool.and_eq_true _ _ ▸ hr).1)
    have hLe := hOne ns subject predicate
    simp only [List.filter_cons, List.filter_nil, hRow,
      decide_false, Bool.false_and]
    simpa using hOld.trans hLe

theorem OneLiveFact.filter
    {rows : List MemoryRow}
    (hOne : OneLiveFact rows)
    (p : MemoryRow → Bool) :
    OneLiveFact (rows.filter p) := by
  intro ns subject predicate
  refine le_trans ?_ (hOne ns subject predicate)
  exact (List.filter_sublist.filter _).length_le

------------------------------------------------------------
-- Calls Past Their Lookups
------------------------------------------------------------

namespace StoreStage

/- The context of a call that is past its lookup. -/
def looked : StoreStage Vec F → Option (StoreContext Vec F)
| .entities ctx => some ctx
| .resolve ctx _ => some ctx
| .target ctx _ => some ctx
| .insertOp ctx => some ctx
| .upsert ctx _ _ _ => some ctx
| .mark ctx _ _ => some ctx
| .commit ctx _ _ => some ctx
| _ => none

theorem looked_afterEntities
    (ctx : StoreContext Vec F) :
    (afterEntities ctx).looked = some ctx := by
  unfold afterEntities
  split <;> rfl

/- A resolved name leaves the fact of a call as it is. -/
theorem looked_nextName
    (ctx : StoreContext Vec F)
    (r : Resolving Vec)
    (entity : Store.Entity) :
    ∃ resolved,
      (nextName ctx r entity).looked =
        some { ctx with resolvedEntities := resolved } := by
  unfold nextName
  dsimp only
  split
  · exact ⟨_, looked_afterEntities _⟩
  · exact ⟨ctx.resolvedEntities, rfl⟩

end StoreStage

section Steps

variable [LE F] [LT F] [DecidableLE F] [DecidableLT F]

omit [LE F] [DecidableLE F] in
private theorem looked_resolveStep
    {w : World Vec} {ctx ctx' : StoreContext Vec F}
    {r : Resolving Vec}
    (hLooked :
      (resolveStep env w ctx r).2.looked = some ctx') :
    ∃ resolved,
      ctx' = { ctx with resolvedEntities := resolved } := by
  have hName :
      ∀ {entity : Store.Entity},
        (nextName ctx r entity).looked = some ctx' →
          ∃ resolved, ctx' =
            { ctx with resolvedEntities := resolved } := by
    intro entity h
    rcases StoreStage.looked_nextName ctx r entity with
      ⟨resolved, hSome⟩
    exact ⟨resolved, Option.some.inj (h.symm.trans hSome)⟩
  have hSame :
      some ctx = some ctx' →
        ∃ resolved, ctx' =
          { ctx with resolvedEntities := resolved } := by
    intro hSame
    cases hSame
    exact ⟨_, rfl⟩
  unfold resolveStep at hLooked
  dsimp only at hLooked
  split at hLooked
  · split at hLooked
    · cases hLooked
    · split at hLooked
      · exact hName hLooked
      · split at hLooked <;> exact hSame hLooked
  · split at hLooked
    · cases hLooked
    · split at hLooked <;> exact hSame hLooked
  · split at hLooked
    · cases hLooked
    · exact hSame hLooked
  · split at hLooked
    · cases hLooked
    · exact hName hLooked
  · split at hLooked
    · cases hLooked
    · exact hName hLooked

/-
  A call is past its lookup when the lookup let it go on, or
  it has a target and makes none, or it was past it before.
-/
theorem StoreStage.looked_step
    {w : World Vec} {st : StoreStage Vec F}
    {ctx' : StoreContext Vec F}
    (hLooked :
      (st.step env service w).2.looked = some ctx') :
    (∃ ctx, st = .conflict ctx ∧
        Conflict.run env ctx w.db = .ok ctx') ∨
      (∃ ctx, st = .embed ctx ∧
        ctx.req.supersedes.isSome = true) ∨
      ∃ ctx resolved, st.looked = some ctx ∧
        ctx' = { ctx with resolvedEntities := resolved } := by
  have hSame :
      ∀ {ctx : StoreContext Vec F}, st.looked = some ctx →
        some ctx = some ctx' →
          ∃ ctx resolved, st.looked = some ctx ∧
            ctx' =
              { ctx with resolvedEntities := resolved } := by
    intro ctx hOld hSame
    cases hSame
    exact ⟨_, ctx'.resolvedEntities, hOld, rfl⟩
  cases st with
  | ensure req =>
      simp only [step] at hLooked
      split at hLooked
      · cases hLooked
      · split at hLooked <;> cases hLooked
  | embed ctx =>
      simp only [step] at hLooked
      split at hLooked
      · rename_i hTarget
        exact Or.inr (Or.inl ⟨ctx, rfl, hTarget⟩)
      · cases hLooked
  | dedup ctx =>
      simp only [step] at hLooked
      split at hLooked <;> cases hLooked
  | conflict ctx =>
      simp only [step] at hLooked
      split at hLooked
      · cases hLooked
      · rename_i hRun
        cases hLooked
        exact Or.inl ⟨ctx, rfl, hRun⟩
  | entities ctx =>
      refine Or.inr (Or.inr (hSame rfl ?_))
      simp only [step] at hLooked
      split at hLooked
      · rw [← hLooked, looked_afterEntities]
      · split at hLooked
        · cases hLooked
        · exact hLooked
  | resolve ctx r =>
      obtain ⟨resolved, hEq⟩ :
          ∃ resolved,
            ctx' = { ctx with resolvedEntities := resolved } :=
        looked_resolveStep hLooked
      exact Or.inr (Or.inr ⟨ctx, resolved, rfl, hEq⟩)
  | target ctx targetId =>
      refine Or.inr (Or.inr (hSame rfl ?_))
      simp only [step] at hLooked
      split at hLooked
      · cases hLooked
      · exact hLooked
  | insertOp ctx =>
      refine Or.inr (Or.inr (hSame rfl ?_))
      simp only [step] at hLooked
      split at hLooked
      · cases hLooked
      · split at hLooked
        · cases hLooked
        · exact hLooked
  | upsert ctx embedding opId startedAt =>
      refine Or.inr (Or.inr (hSame rfl ?_))
      simp only [step] at hLooked
      split at hLooked
      · cases hLooked
      · exact hLooked
  | mark ctx opId startedAt =>
      exact Or.inr (Or.inr (hSame rfl hLooked))
  | commit ctx opId startedAt =>
      simp only [step] at hLooked
      split at hLooked <;> cases hLooked
  | done result => cases hLooked

------------------------------------------------------------
-- Lookups and Commits
------------------------------------------------------------

/- The facts committed since the lookup of each call. -/
abbrev FactsSince := Nat → List FactKey

section Record

omit [LE F] [LT F] [DecidableLE F] [DecidableLT F]

/- The next step of the call is its conflict lookup. -/
def System.looksUp (s : System Vec F) (i : Nat) : Bool :=
  match s.live i with
  | some (.store _ (.conflict _)) => true
  | _ => false

/- The key of the fact that a step of a call commits. -/
def System.commitsFact
    (env : Env Vec F)
    (s : System Vec F)
    (i : Nat)
    (t : System Vec F) : Option FactKey :=
  match s.live i, t.live i with
  | some (.store _ (.commit ctx _ _)),
      some (.store _ (.done (.ok _))) => ctx.factKey env
  | _, _ => none

/- A lookup begins a list, and a commit goes into all. -/
def factsSince
    (env : Env Vec F)
    (s : System Vec F)
    (e : Event F)
    (t : System Vec F)
    (since : FactsSince) : FactsSince :=
  match e with
  | .step i =>
      if s.looksUp i then
        Function.update since i []
      else
        fun j => since j ++ (s.commitsFact env i t).toList
  | _ => since

/- Only its own lookup takes facts from the list of a call. -/
theorem mem_factsSince
    {since : FactsSince} {i : Nat} {key : FactKey}
    (hKey : key ∈ since i)
    (hLookup : e = .step i → s.looksUp i = false) :
    key ∈ factsSince env s e t since i := by
  cases e with
  | step j =>
      simp only [factsSince]
      split
      · rename_i hLooks
        have hNe : i ≠ j := by
          rintro rfl
          simp [hLookup rfl] at hLooks
        rw [Function.update_of_ne hNe]
        exact hKey
      · exact List.mem_append_left _ hKey
  | _ => exact hKey

/- A commit puts its fact into the lists of all calls. -/
theorem mem_factsSince_of_commit
    {since : FactsSince} {i j : Nat} {key : FactKey}
    {req : StoreRequest} {ctx : StoreContext Vec F}
    {opId : String} {startedAt : DateTime}
    {resp : StoreResponse}
    (hLive :
      s.live i = some (.store req (.commit ctx opId startedAt)))
    (hAnswer :
      t.live i = some (.store req (.done (.ok resp))))
    (hKey : ctx.factKey env = some key) :
    key ∈ factsSince env s (.step i) t since j := by
  simp [factsSince, System.looksUp, System.commitsFact, hLive,
    hAnswer, hKey]

end Record

/- The service, with the facts since each lookup. -/
def watched
    (env : Env Vec F)
    (service : MemoryService F) :
    Machine (System Vec F × FactsSince) (Event F) :=
  (machine env service).recorded (fun _ => []) (factsSince env)

omit [LE F] [LT F] [DecidableLE F] [DecidableLT F] in
/- A store request has no target. -/
def Event.Untargeted : Event F → Prop
| .store _ req => req.supersedes = none
| _ => True

omit [LE F] [LT F] [DecidableLE F] [DecidableLT F] in
/-
  Between the lookup of a call and its commit no other call
  has committed a fact for its key.
-/
def Unraced
    (env : Env Vec F)
    (x : System Vec F × FactsSince) : Event F → Prop
| .step i =>
    ∀ req ctx opId startedAt key,
      x.1.live i =
          some (.store req (.commit ctx opId startedAt)) →
        ctx.factKey env = some key →
          key ∉ x.2 i
| _ => True

------------------------------------------------------------
-- Runs
------------------------------------------------------------

omit [LE F] [LT F] [DecidableLE F] [DecidableLT F] in
/-
  Facts are unique for their keys, and each call that is
  past its lookup has a current one, unless a fact for its
  key was committed since.
-/
structure Watched
    (env : Env Vec F)
    (service : MemoryService F)
    (x : System Vec F × FactsSince) : Prop where
  one : OneLiveFact x.1.world.db.memories
  fits : x.1.Fits service
  untargeted :
    ∀ i call req stage, x.1.calls i = some call →
      call.task = .store req stage → req.supersedes = none
  current :
    ∀ i call req stage ctx, x.1.calls i = some call →
      call.task = .store req stage →
        stage.looked = some ctx →
          (∀ key, ctx.factKey env = some key →
            key ∉ x.2 i) →
            Current env ctx x.1.world.db.memories

variable {since : FactsSince}

theorem Watched.one_next
    (hWatched : Watched env service (s, since))
    (hNext : s.next env service e = some t)
    (hUnraced : Unraced env (s, since) e) :
    OneLiveFact t.world.db.memories := by
  cases System.rowChange hNext with
  | keep hRows => exact hRows ▸ hWatched.one
  | @commit i req ctx opId startedAt hLive _ hRows _ _ =>
      rw [hRows]
      refine hWatched.one.commit ?_
      exact hWatched.current i _ req _ ctx
        (System.live_eq_some hLive).2 rfl rfl
        (fun key hKey =>
          hUnraced req ctx opId startedAt key hLive hKey)
  | delete p hRows =>
      rw [hRows]
      exact hWatched.one.filter p

theorem Watched.untargeted_next
    (hWatched : Watched env service (s, since))
    (hNext : s.next env service e = some t)
    (hUntargeted : e.Untargeted)
    {i : Nat} {call : Call Vec F} {req : StoreRequest}
    {stage : StoreStage Vec F}
    (hCall : t.calls i = some call)
    (hTask : call.task = .store req stage) :
    req.supersedes = none := by
  rcases System.calls_next hNext hCall with
    ⟨old, hOld, hSame⟩ | ⟨req', rfl, hStart⟩ |
      ⟨ids, _, hStart⟩ | ⟨task, _, hLive, hStep⟩ |
        ⟨task, err, _, hLive, hFail⟩
  · exact hWatched.untargeted i old req stage hOld
      (hSame ▸ hTask)
  · cases hTask.symm.trans hStart
    exact hUntargeted
  · cases hTask.symm.trans hStart
  · cases task with
    | forget ids st => cases hTask.symm.trans hStep
    | store req' st =>
        cases hTask.symm.trans hStep
        exact hWatched.untargeted i _ _ st
          (System.live_eq_some hLive).2 rfl
  · cases task with
    | forget ids st => cases hTask.symm.trans hFail
    | store req' st =>
        cases hTask.symm.trans hFail
        exact hWatched.untargeted i _ _ st
          (System.live_eq_some hLive).2 rfl

/- A lookup that was current is so after a step. -/
theorem Watched.current_kept
    (hWatched : Watched env service (s, since))
    (hNext : s.next env service e = some t)
    {i : Nat} {call : Call Vec F} {req : StoreRequest}
    {stage : StoreStage Vec F} {ctx : StoreContext Vec F}
    (hCall : s.calls i = some call)
    (hTask : call.task = .store req stage)
    (hLooked : stage.looked = some ctx)
    (hSince :
      ∀ key, ctx.factKey env = some key →
        key ∉ factsSince env s e t since i) :
    Current env ctx t.world.db.memories := by
  refine Current.next ?_ hNext ?_
  · refine hWatched.current i call req stage ctx hCall hTask
      hLooked (fun key hKey hMem => hSince key hKey ?_)
    refine mem_factsSince hMem (fun _ => ?_)
    -- a call past its lookup makes no other one
    unfold System.looksUp
    split
    · rename_i hLive
      cases hCall.symm.trans (System.live_eq_some hLive).2
      cases hTask
      cases hLooked
    · rfl
  · rintro j req' ctx' opId startedAt resp key rfl hLive
      hAnswer hKey hOther
    exact hSince key hKey
      (mem_factsSince_of_commit hLive hAnswer hOther)

theorem Watched.current_next
    (hWatched : Watched env service (s, since))
    (hNext : s.next env service e = some t)
    {i : Nat} {call : Call Vec F} {req : StoreRequest}
    {stage : StoreStage Vec F} {ctx : StoreContext Vec F}
    (hCall : t.calls i = some call)
    (hTask : call.task = .store req stage)
    (hLooked : stage.looked = some ctx)
    (hSince :
      ∀ key, ctx.factKey env = some key →
        key ∉ factsSince env s e t since i) :
    Current env ctx t.world.db.memories := by
  rcases System.calls_next hNext hCall with
    ⟨old, hOld, hSame⟩ | ⟨req', _, hStart⟩ |
      ⟨ids, _, hStart⟩ | ⟨task, rfl, hLive, hStep⟩ |
        ⟨task, err, _, hLive, hFail⟩
  · exact hWatched.current_kept hNext hOld (hSame ▸ hTask)
      hLooked hSince
  · cases hTask.symm.trans hStart
    cases hLooked
  · cases hTask.symm.trans hStart
  · cases task with
    | forget ids st => cases hTask.symm.trans hStep
    | store req' st =>
        have hOld := (System.live_eq_some hLive).2
        cases hTask.symm.trans hStep
        rcases StoreStage.looked_step hLooked with
          ⟨ctx₀, rfl, hRun⟩ | ⟨ctx₀, rfl, hTarget⟩ |
            ⟨ctx₀, resolved, hBefore, rfl⟩
        · have hRows :
              t.world.db.memories =
                s.world.db.memories := by
            cases System.rowChange hNext with
            | keep hRows => exact hRows
            | commit hCommit => cases hLive.symm.trans hCommit
            | delete p hRows =>
                simp only [System.next, hLive, Task.step,
                  StoreStage.step, hRun,
                  Option.some.injEq] at hNext
                rw [← hNext]
                rfl
          rw [hRows]
          exact Conflict.run_current hRun
        · have hNone :=
            hWatched.untargeted i _ req _ hOld rfl
          have hOf :=
            (hWatched.fits i _ hOld).2 ctx₀ rfl
          rw [hOf.request, hNone] at hTarget
          cases hTarget
        · -- the entities are no part of the fact
          have hCurrent :
              Current env ctx₀ t.world.db.memories :=
            hWatched.current_kept hNext hOld rfl hBefore
              hSince
          exact hCurrent
  · cases task with
    | forget ids st => cases hTask.symm.trans hFail
    | store req' st =>
        cases hTask.symm.trans hFail
        cases hLooked

theorem Watched.next
    {x y : System Vec F × FactsSince}
    (hWatched : Watched env service x)
    (hStep : (watched env service).step x e y)
    (hUntargeted : e.Untargeted)
    (hUnraced : Unraced env x e) :
    Watched env service y := by
  rcases x with ⟨s, since⟩
  rcases y with ⟨t, since'⟩
  rcases hStep with ⟨hNext, hSince⟩
  change s.next env service e = some t at hNext
  change since' = factsSince env s e t since at hSince
  subst hSince
  constructor
  case one => exact hWatched.one_next hNext hUnraced
  case fits =>
    exact System.tasks_next (taskInvariant_fits env service)
      hNext hWatched.fits
  case untargeted =>
    intro i call req stage hCall hTask
    exact hWatched.untargeted_next hNext hUntargeted hCall
      hTask
  case current =>
    intro i call req stage ctx hCall hTask hLooked hOthers
    exact hWatched.current_next hNext hCall hTask hLooked
      hOthers

/-
  Whatever the order of the stages, there is at most one
  live fact for each subject and predicate, as long as no
  two calls race for one.
-/
theorem one_live_fact
    {s₀ : System Vec F} {es : List (Event F)}
    {x : System Vec F × FactsSince}
    (hCalls : ∀ i, s₀.calls i = none)
    (hOne : OneLiveFact s₀.world.db.memories)
    (hRun :
      ((watched env service).restrict
        (fun x e => e.Untargeted ∧ Unraced env x e)).Run
          (s₀, fun _ => []) es x) :
    OneLiveFact x.1.world.db.memories := by
  have hWatched : Watched env service x := by
    refine hRun.restrict_invariant
      (fun _ _ _ hWatched hStep hGuard =>
        hWatched.next hStep hGuard.1 hGuard.2)
      ⟨hOne, ?_, ?_, ?_⟩
    · intro i call hCall
      simp [hCalls i] at hCall
    · intro i call _ _ hCall
      simp [hCalls i] at hCall
    · intro i call _ _ _ hCall
      simp [hCalls i] at hCall
  exact hWatched.one

end Steps

/- The condition on runs, as a check of a state. -/
private def unraced
    (x : System String Rat × FactsSince) : Event Rat → Bool
| .store _ req => req.supersedes.isNone
| .step i =>
    match x.1.live i with
    | some (.store _ (.commit ctx _ _)) =>
        (ctx.factKey Env.plain).all
          (fun key => decide (key ∉ x.2 i))
    | _ => true
| _ => true

private theorem unraced_of_check
    (x : System String Rat × FactsSince)
    (e : Event Rat)
    (h : unraced x e = true) :
    e.Untargeted ∧ Unraced Env.plain x e := by
  cases e with
  | store i req =>
      exact ⟨Option.isNone_iff_eq_none.mp h, trivial⟩
  | step i =>
      refine ⟨trivial, ?_⟩
      intro req ctx opId startedAt key hLive hKey
      simp only [unraced, hLive, hKey, Option.all_some] at h
      exact of_decide_eq_true h
  | _ => exact ⟨trivial, trivial⟩

/-
  Two calls for two keys overlap, and a third one supersedes
  the fact of the first.
-/
theorem one_live_fact_third_store :
    ∃ x : System String Rat × FactsSince,
      x.1.world.db.memories.length = 3 ∧
        OneLiveFact x.1.world.db.memories := by
  let es : List (Event Rat) :=
    .store 0 (.fact "cat" "is" "asleep") ::
      .store 1 (.fact "cat" "likes" "milk") ::
        (List.replicate 5 (.step 0) ++
          (List.replicate 9 (.step 1) ++
            (List.replicate 4 (.step 0) ++
              .store 2 (.fact "cat" "is" "purring") ::
                List.replicate 9 (.step 2))))
  have hRun :
      ∃ x, ((watched Env.plain MemoryService.plain).restrict
          (fun x e =>
            e.Untargeted ∧ Unraced Env.plain x e)).Run
          (System.empty, fun _ => []) es x ∧
        decide (x.1.world.db.memories.length = 3) = true :=
    Machine.Run.recorded_of_any _ _ es _ unraced_of_check
      (by decide +kernel)
  rcases hRun with ⟨x, hRun, hTest⟩
  exact ⟨x, of_decide_eq_true hTest,
    one_live_fact (fun _ => rfl)
      (by simp [System.empty, OneLiveFact, liveFacts])
      hRun⟩

------------------------------------------------------------
-- A Race
------------------------------------------------------------

/- No call is running. -/
def System.Resting (s : System Vec F) : Prop :=
  ∀ i task, s.live i = some task →
    ∃ req result, task = .store req (.done result)

/- Steps of store calls without a target in a namespace. -/
def Event.PlainStore
    (service : MemoryService F)
    (ns : String) : Event F → Prop
| .store _ req =>
    req.supersedes = none ∧
      service.requestNamespace req = ns
| .step _ => True
| .tick _ => True
| _ => False

/-
  Two stores of one key look it up before either commits,
  and both of their facts stay valid.
-/
theorem two_live_facts :
    ¬ ∀ (s₀ s : System String Rat) (es : List (Event Rat)),
        Start Env.plain s₀ →
        OneLiveFact s₀.world.db.memories →
        (∀ e ∈ es,
          e.PlainStore MemoryService.plain "default") →
        (machine Env.plain MemoryService.plain).Run
          s₀ es s →
        s.Resting →
          OneLiveFact s.world.db.memories := by
  intro hClaim
  rcases System.run_of_any Env.plain
    MemoryService.plain System.empty
    (.store 0 (.fact "cat" "is" "asleep") ::
      .store 1 (.fact "cat" "is" "purring") ::
        (List.replicate 5 (.step 0) ++
          (List.replicate 9 (.step 1) ++
            List.replicate 4 (.step 0))))
    (fun s =>
      decide (2 ≤ (liveFacts "default" "cat" "is"
        s.world.db.memories).length) &&
      (s.live 0).any Task.stored && (s.live 1).any Task.stored)
    (by decide +kernel) with ⟨s, hRun, hTest⟩
  simp only [Bool.and_eq_true, decide_eq_true_eq] at hTest
  rcases hTest with ⟨⟨hTwo, hFirst⟩, hSecond⟩
  have hResting : s.Resting := by
    intro i task hLive
    rcases i with _ | _ | i
    · rw [hLive] at hFirst
      exact Task.stored_iff.mp hFirst
    · rw [hLive] at hSecond
      exact Task.stored_iff.mp hSecond
    · have hNone :=
        System.calls_run (i := i + 2) hRun
          (by simp [Event.begins]) rfl
      rw [(System.live_eq_some hLive).2] at hNone
      cases hNone
  have hOne :=
    hClaim _ _ _ (start_empty _)
      (by simp [System.empty, OneLiveFact, liveFacts])
      (by
        simp [Event.PlainStore, StoreRequest.fact,
          StoreRequest.note, MemoryService.plain,
          MemoryService.requestNamespace])
      hRun hResting "default" "cat" "is"
  omega

end Core

end Ferrex
