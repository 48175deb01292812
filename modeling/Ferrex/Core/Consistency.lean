import Ferrex.Core.Journal

/-
  Crash consistency of the journal: after a completed
  recovery the memory points and the memory rows of each
  namespace have the same ids, as long as no call stopped
  between its write to Qdrant and the mark of its op.

  Main declarations:
    * `Idle`, `Start`
    * `MarksWrites`
    * `recovery_consistent`
-/

------------------------------------------------------------
-- Start
------------------------------------------------------------

namespace Ferrex

namespace Core

open Store

variable {Vec F : Type}
variable {env : Env Vec F} {s t : System Vec F}

/-
  A state to start from: nothing runs, nothing is pending,
  and the ids in use are UUIDs that were generated before.
-/
structure Idle
    (env : Env Vec F)
    (s : System Vec F) : Prop where
  up : s.mode = .up
  calls : ∀ i, s.calls i = none
  pendingOps : s.world.db.pendingOps = []
  committed :
    s.committed =
      s.world.db.memories.map (fun r => (r.namespace, r.id))
  rows_unique :
    Table.KeyUnique MemoryRow.id s.world.db.memories
  rows :
    ∀ r ∈ s.world.db.memories,
      env.parseUuid r.id = some r.id ∧ Old env s.world r.id
  completed :
    ∀ op ∈ s.world.db.completedOps,
      Old env s.world op.opId
  points :
    ∀ ns, ∀ p ∈ s.world.qdrant.points ns,
      p.payload.IsMemory → Old env s.world p.id

/- There, both stores hold the same memories. -/
structure Start
    (env : Env Vec F)
    (s : System Vec F) : Prop extends Idle env s where
  consistent :
    memoryPoints s.world.qdrant = memoryKeys s.world.db

/- An empty system is one to start from. -/
theorem start_empty (env : Env Vec F) :
    Start env System.empty where
  up := rfl
  calls _ := rfl
  pendingOps := rfl
  committed := rfl
  rows_unique := by
    simp [System.empty, Table.KeyUnique]
  rows := by simp [System.empty]
  completed := by simp [System.empty]
  points := by simp [System.empty, Qdrant.points]
  consistent := by
    ext k
    simp [memoryPoints, memoryKeys, System.empty,
      Qdrant.HasMemoryPoint, Qdrant.points]

namespace Idle

/- No call is live there. -/
theorem live
    (hIdle : Idle env s)
    (i : Nat) :
    s.live i = none := by
  simp [System.live, hIdle.up, hIdle.calls]

/- Its ids are sound. -/
theorem sound (hIdle : Idle env s) : Sound env s := by
  refine Sound.of_no_calls ?_ hIdle.live
    (by simp [hIdle.calls]) (by simp [hIdle.up])
  constructor
  case rows =>
    intro r hr
    rw [hIdle.committed]
    exact List.mem_map_of_mem hr
  case rows_unique => exact hIdle.rows_unique
  case committed =>
    intro k hk
    rw [hIdle.committed] at hk
    rcases List.mem_map.mp hk with ⟨r, hr, rfl⟩
    exact hIdle.rows r hr
  case ops => simp [hIdle.pendingOps]
  case ops_unique =>
    simp [hIdle.pendingOps, Table.KeyUnique]
  case completed => exact hIdle.completed
  case points => exact hIdle.points

/- An idle state satisfies the protocol's invariant. -/
theorem inv
    (hIdle : Idle env s) :
    IntentJournal.Inv Prod.snd s.journal := by
  have hCommitted :
      s.journal.rows = s.journal.committed := by
    ext k
    simp [System.journal, memoryKeys, hIdle.committed]
  refine IntentJournal.Inv.initial hCommitted ?_ ?_ ?_ ?_
  · -- a row is determined by its id
    intro k hk x hx hId
    rw [← hCommitted] at hk hx
    rcases hk with ⟨r, hr, rfl⟩
    rcases hx with ⟨r', hr', rfl⟩
    rw [hIdle.rows_unique.eq_of_key_eq hr hr' hId]
  · simp [System.journal, journalEntries,
      hIdle.pendingOps]
  · intro i
    simp [System.journal, System.journalWorkers,
      hIdle.live i]
  · simp [System.journal, hIdle.up, Mode.journal]

end Idle

namespace Start

/- Both stores hold the same, so no point lacks its row. -/
theorem pointsCovered
    (hStart : Start env s) :
    IntentJournal.PointsCovered s.journal :=
  fun _ hk => Or.inl (hStart.consistent.subset hk)

/- In such a state no row lacks its point. -/
theorem rowsCovered
    (hStart : Start env s) :
    IntentJournal.RowsCovered s.journal :=
  fun _ hk => Or.inl (hStart.consistent.superset hk)

end Start

------------------------------------------------------------
-- Invariants of Runs
------------------------------------------------------------

variable [LE F] [LT F] [DecidableLE F] [DecidableLT F]
variable {service : MemoryService F} {e : Event F}

/- The ids and the protocol are in order. -/
structure Ordered
    (env : Env Vec F)
    (s : System Vec F) : Prop where
  sound : Sound env s
  inv : IntentJournal.Inv Prod.snd s.journal

/- Ids and protocol stay in order at each step. -/
theorem Ordered.next
    (hOrdered : Ordered env s)
    (hNext : s.next env service e = some t) :
    Ordered env t := by
  refine ⟨hOrdered.sound.next hNext, ?_⟩
  rcases journal_step hOrdered.sound hNext with hEq | hStep
  · exact hEq ▸ hOrdered.inv
  · exact hStep.inv hOrdered.inv

omit [LE F] [LT F] [DecidableLE F] [DecidableLT F] in
/- Accesses and validations of rows are no part of it. -/
theorem Ordered.touched
    {db : Sqlite}
    (hOrdered : Ordered env s)
    (hRows : Sqlite.TouchedRows s.world.db db) :
    Ordered env { s with
      world := { s.world with db := db } } := by
  rcases hRows with ⟨g, hg, rfl⟩
  have hId : ∀ r, (g r).id = r.id := fun r => by rw [hg r]
  have hNs : ∀ r, (g r).namespace = r.namespace :=
    fun r => by rw [hg r]
  have hSound := hOrdered.sound
  have hKeys :
      memoryKeys { s.world.db with
        memories := s.world.db.memories.map g } =
          memoryKeys s.world.db := by
    ext k
    simp [memoryKeys, hId, hNs]
  refine ⟨⟨⟨?_, ?_, hSound.world.committed, hSound.world.ops,
    hSound.world.ops_unique, hSound.world.completed,
    hSound.world.points⟩, hSound.contexts, hSound.opIds,
    hSound.entities, hSound.entity_points,
    hSound.entity_contexts, hSound.forgets, hSound.lost,
    hSound.recovery⟩, ?_⟩
  · intro r hr
    rcases List.mem_map.mp hr with ⟨r₀, hr₀, rfl⟩
    rw [hNs, hId]
    exact hSound.world.rows r₀ hr₀
  · have hUnique := hSound.world.rows_unique
    unfold Table.KeyUnique at hUnique ⊢
    rw [List.map_map]
    have hSame :
        MemoryRow.id ∘ g = MemoryRow.id := funext hId
    rw [hSame]
    exact hUnique
  · have hJournal :
        System.journal { s with
          world := { s.world with
            db := { s.world.db with
              memories := s.world.db.memories.map g } } } =
          { s.journal with
            rows := memoryKeys { s.world.db with
              memories := s.world.db.memories.map g } } :=
      rfl
    rw [hJournal, hKeys]
    exact hOrdered.inv

omit [LE F] [LT F] [DecidableLE F] [DecidableLT F] in
/- Ids and protocol are in order where nothing runs. -/
theorem Idle.ordered (hIdle : Idle env s) : Ordered env s :=
  ⟨hIdle.sound, hIdle.inv⟩

------------------------------------------------------------
-- Writes That Are Marked
------------------------------------------------------------

/- A call between its write to Qdrant and the mark of it. -/
def Task.unmarked : Task Vec F → Bool
| .store _ (.mark ..) => true
| .forget _ (.mark ..) => true
| _ => false

/-
  No call stops, by an error or in a crash, between its
  write to Qdrant and the mark of its op.
-/
def MarksWrites (s : System Vec F) : Event F → Prop
| .fail i _ =>
    ∀ task, s.live i = some task → task.unmarked = false
| .crash =>
    ∀ i task, s.live i = some task → task.unmarked = false
| _ => True

omit [LE F] [LT F] [DecidableLE F] [DecidableLT F] in
/- Between the write and its mark a call is not marked. -/
theorem unmarked_of_written
    {task : Task Vec F}
    {x : IntentJournal.Entry MemoryKey String}
    (hWorker : task.worker = .written x) :
    task.unmarked = true := by
  cases task with
  | store req stage =>
      cases stage <;>
        simp_all [Task.worker, StoreStage.preparing,
          Task.unmarked]
  | forget ids stage =>
      cases stage <;>
        simp_all [Task.worker, Task.unmarked]

omit [LE F] [LT F] [DecidableLE F] [DecidableLT F] in
/- Such a call is at work. -/
private theorem worker_ne_idle
    {task : Task Vec F}
    (hUnmarked : task.unmarked = true) :
    task.worker ≠ .idle := by
  cases task with
  | store req stage =>
      cases stage <;> simp_all [Task.unmarked, Task.worker]
  | forget ids stage =>
      cases stage <;> simp_all [Task.unmarked, Task.worker]

/- After its step such a call is still at work. -/
private theorem step_unmarked
    {task : Task Vec F}
    (hUnmarked : task.unmarked = true)
    (w : World Vec) :
    (task.step env service w).2.worker ≠ .idle := by
  cases task with
  | store req stage =>
      cases stage <;>
        simp_all [Task.unmarked, Task.step, StoreStage.step,
          Task.worker]
  | forget ids stage =>
      cases stage <;>
        simp_all [Task.unmarked, Task.step,
          ForgetStage.step, Task.worker]

/- Only a failure or a crash cuts a write of a call off. -/
theorem interrupts_cases
    {kind : IntentJournal.Kind}
    (hNext : s.next env service e = some t)
    (hCut :
      IntentJournal.Interrupts kind s.journal t.journal) :
    ∃ i task x, s.live i = some task ∧
      task.worker = .written x ∧ x.kind = kind ∧
        ((∃ err, e = .fail i err) ∨ e = .crash) := by
  rcases hCut with ⟨i, x, hWritten, hKind, hIdle⟩
  change s.journalWorkers i = .written x at hWritten
  change t.journalWorkers i = .idle at hIdle
  obtain ⟨task, hLive⟩ :
      ∃ task, s.live i = some task := by
    cases hLive : s.live i with
    | none => simp [System.journalWorkers, hLive] at hWritten
    | some task => exact ⟨task, rfl⟩
  have hWorker : task.worker = .written x :=
    (System.journalWorkers_of_live hLive).symm.trans
      hWritten
  have hUnmarked := unmarked_of_written hWorker
  refine ⟨i, task, x, hLive, hWorker, hKind, ?_⟩
  rcases System.live_next hNext hLive with
    hSame | ⟨_, hStep⟩ | ⟨err, hFail, _⟩ | hCrash
  · rw [System.journalWorkers_of_live hSame] at hIdle
    exact absurd hIdle (worker_ne_idle hUnmarked)
  · rw [System.journalWorkers_of_live hStep] at hIdle
    exact absurd hIdle (step_unmarked hUnmarked s.world)
  · exact Or.inl ⟨err, hFail⟩
  · exact Or.inr hCrash

/- Under the condition no write of the protocol is cut off. -/
theorem not_interrupts
    {kind : IntentJournal.Kind}
    (hNext : s.next env service e = some t)
    (hMarks : MarksWrites s e) :
    ¬ IntentJournal.Interrupts kind s.journal
      t.journal := by
  intro hCut
  rcases interrupts_cases hNext hCut with
    ⟨i, task, x, hLive, hWorker, _, ⟨err, rfl⟩ | rfl⟩
  · have hUnmarked := unmarked_of_written hWorker
    simp [hMarks task hLive] at hUnmarked
  · have hUnmarked := unmarked_of_written hWorker
    simp [hMarks i task hLive] at hUnmarked

------------------------------------------------------------
-- Completed Recoveries
------------------------------------------------------------

/-
  Every point and every row is either matched in the other
  store or seen to by a call or a marked op.
-/
structure Covered
    (env : Env Vec F)
    (s : System Vec F) : Prop where
  ordered : Ordered env s
  points : IntentJournal.PointsCovered s.journal
  rows : IntentJournal.RowsCovered s.journal

omit [LE F] [LT F] [DecidableLE F] [DecidableLT F] in
/- All is covered at the start. -/
theorem Start.covered (hStart : Start env s) : Covered env s :=
  ⟨hStart.toIdle.ordered, hStart.pointsCovered, hStart.rowsCovered⟩

/- The cover lasts while every write is marked. -/
theorem Covered.next
    (hCovered : Covered env s)
    (hNext : s.next env service e = some t)
    (hMarks : MarksWrites s e) :
    Covered env t := by
  have hInv := hCovered.ordered.inv
  refine ⟨hCovered.ordered.next hNext, ?_, ?_⟩
  · rcases journal_step hCovered.ordered.sound hNext with
      hEq | hStep
    · exact hEq ▸ hCovered.points
    · exact hStep.pointsCovered hInv hCovered.points
        (not_interrupts hNext hMarks)
  · rcases journal_step hCovered.ordered.sound hNext with
      hEq | hStep
    · exact hEq ▸ hCovered.rows
    · exact hStep.rowsCovered hInv hCovered.rows
        (not_interrupts hNext hMarks)

/- What a completed recovery is to leave behind. -/
structure Consistent (s : System Vec F) : Prop where
  points :
    ∀ ns id, s.world.qdrant.HasMemoryPoint ns id ↔
      ∃ r ∈ s.world.db.memories,
        r.namespace = ns ∧ r.id = id
  pendingOps : s.world.db.pendingOps = []
  kept :
    ∀ k ∈ s.committed, ¬ s.NamedByForget k.2 →
      ∃ r ∈ s.world.db.memories, (r.namespace, r.id) = k

omit [LE F] [LT F] [DecidableLE F] [DecidableLT F] in
/- Once a recovery is through, only the covered is left. -/
theorem Covered.consistent
    (hCovered : Covered env s)
    (hRecovered : s.mode.recovered = true) :
    Consistent s := by
  obtain ⟨report, hMode⟩ :
      ∃ report, s.mode = .recovering (.done report) := by
    unfold Mode.recovered at hRecovered
    split at hRecovered
    · rename_i report hMode
      exact ⟨report, hMode⟩
    · cases hRecovered
  have hOps : s.world.db.pendingOps = [] :=
    hCovered.ordered.sound.recovery _ hMode
  have hIdle :=
    hCovered.ordered.inv.down_idle
      (by simp [System.journal, hMode, Mode.journal])
  have hSame :=
    IntentJournal.points_eq_rows hCovered.points
      hCovered.rows
      (by simp [System.journal, journalEntries, hOps])
      hIdle
  constructor
  case points =>
    intro ns id
    have hKey := Set.ext_iff.mp hSame (ns, id)
    simpa [System.journal, memoryPoints, memoryKeys]
      using hKey
  case pendingOps => exact hOps
  case kept =>
    intro k hk hUnnamed
    exact (hCovered.ordered.inv.kept k hk).resolve_right
      hUnnamed

/-
  After a completed recovery points and rows agree, the
  journal is empty, and no memory is gone that was not to be
  forgotten.
-/
theorem recovery_consistent
    {s₀ : System Vec F} {es : List (Event F)}
    (hStart : Start env s₀)
    (hRun :
      ((machine env service).restrict MarksWrites).Run
        s₀ es s)
    (hRecovered : s.mode.recovered = true) :
    Consistent s := by
  have hCovered : Covered env s :=
    hRun.restrict_invariant
      (fun _ _ _ hCovered hNext hMarks =>
        hCovered.next hNext hMarks)
      hStart.covered
  exact hCovered.consistent hRecovered

/- One store is done, and one is about to commit. -/
private def storedTwice : List (Event Rat) :=
  .store 0 (.note "the cat is asleep") ::
    (List.replicate 9 (.step 0) ++
      .store 1 (.note "the dog barks") ::
        List.replicate 8 (.step 1))

/- The stores before the crash, and what each has written. -/
private def aboutToCommit (s : System String Rat) : Bool :=
  (s.calls 0).all (fun c => !c.task.unmarked) &&
    (s.calls 1).all (fun c => !c.task.unmarked) &&
      decide (s.world.db.memories.length = 1 ∧
        (s.world.qdrant.points "default").countP
          (fun p => decide p.payload.IsMemory) = 2)

/-
  A crash between the mark and the commit of a store: the
  recovery deletes the point that has no row, and keeps the
  store that was done.
-/
theorem recovery_consistent_after_store :
    ∃ u s : System String Rat,
      (machine Env.plain MemoryService.plain).Run u
          (.crash :: List.replicate 7 .recover) s ∧
        (u.world.qdrant.points "default").countP
            (fun p => decide p.payload.IsMemory) = 2 ∧
        s.committed = [("default", Env.plainUuid 0)] ∧
        Consistent s := by
  have hAny :
      (System.empty.after Env.plain MemoryService.plain
        (storedTwice ++
          .crash :: List.replicate 7 .recover)).any
        (fun s => s.mode.recovered &&
          decide (s.committed =
            [("default", Env.plainUuid 0)])) = true := by
    decide +kernel
  rw [System.after_append] at hAny
  cases hStored :
      System.empty.after Env.plain MemoryService.plain
        storedTwice with
  | none => simp [hStored] at hAny
  | some u =>
      have hWritten : aboutToCommit u = true := by
        have h :
            (System.empty.after Env.plain
              MemoryService.plain storedTwice).all
                aboutToCommit = true := by
          decide +kernel
        simpa [hStored] using h
      have hOthers (i : Nat) : u.calls (i + 2) = none := by
        have h :
            (System.empty.after Env.plain
              MemoryService.plain storedTwice).bind
              (fun u => u.calls (i + 2)) = none :=
          rfl
        simpa [hStored] using h
      simp only [aboutToCommit, Bool.and_eq_true,
        decide_eq_true_eq] at hWritten
      rcases hWritten with ⟨⟨hFirst, hSecond⟩, _, hPoints⟩
      have hMarks : MarksWrites u (.crash : Event Rat) := by
        intro i task hLive
        have hCall := (System.live_eq_some hLive).2
        cases i with
        | zero => simpa [hCall] using hFirst
        | succ i =>
            cases i with
            | zero => simpa [hCall] using hSecond
            | succ i => simp [hOthers i] at hCall
      rw [hStored, Option.bind_some] at hAny
      rcases System.run_of_any _ _ _ _ _ hAny with
        ⟨s, hRun, hTest⟩
      simp only [Bool.and_eq_true, decide_eq_true_eq]
        at hTest
      rcases hRun.uncons with ⟨v, hCrash, hRecovery⟩
      have hBefore :=
        (System.run_of_after hStored).restrict
          MarksWrites
          (by simp [storedTwice, MarksWrites])
      have hRest :=
        hRecovery.restrict MarksWrites
          (by simp [MarksWrites])
      exact ⟨u, s, hRun, hPoints, hTest.2,
        recovery_consistent (start_empty _)
          (hBefore.append (hRest.cons ⟨hCrash, hMarks⟩))
          hTest.1⟩

/-
  A crash between the write to Qdrant and the mark: the
  recovery takes the op for one that never got there, and
  the point stays behind without a row.
-/
theorem recovery_inconsistent :
    ¬ ∀ (s₀ s : System String Rat) (es : List (Event Rat)),
        Start Env.plain s₀ →
        (machine Env.plain MemoryService.plain).Run
          s₀ es s →
        s.mode.recovered = true →
          Consistent s := by
  intro hClaim
  rcases System.run_of_any Env.plain
    MemoryService.plain System.empty
    (.store 0 (.note "the cat is asleep") ::
      (List.replicate 7 (.step 0) ++
        .crash :: List.replicate 5 .recover))
    (fun s =>
      s.mode.recovered &&
        ((s.world.qdrant.points "default").any
          (fun p => decide p.payload.IsMemory) &&
          s.world.db.memories.isEmpty))
    (by decide) with ⟨s, hRun, hTest⟩
  simp only [Bool.and_eq_true, List.isEmpty_iff] at hTest
  rcases hTest with ⟨hRecovered, hPoint, hRows⟩
  have hConsistent :=
    hClaim _ _ _ (start_empty _) hRun hRecovered
  rcases List.any_eq_true.mp hPoint with ⟨p, hp, hMemory⟩
  rcases (hConsistent.points "default" p.id).mp
    ⟨p, hp, rfl, of_decide_eq_true hMemory⟩ with ⟨r, hr, _⟩
  simp [hRows] at hr

end Core

end Ferrex
