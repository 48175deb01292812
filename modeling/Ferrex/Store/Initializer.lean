import Ferrex.Store.Ensure

/-
  The once-cells of the stores: each is one store's and one
  name's, and one call at most holds its permit.

  Main declarations:
    * `Owned`, `Held`
    * `one_initializer`
-/

------------------------------------------------------------
-- Cells and Their Holders
------------------------------------------------------------

namespace Ferrex

namespace Store

namespace Ensure

/- Every cell is of one store and one name, and held once. -/
structure Owned (s : State) : Prop where
  memo :
    ∀ store name k, s.ensured store name = some k →
      ∃ cell, s.cells k = some cell ∧ cell.store = store ∧
        cell.name = name
  call :
    ∀ i call name k, s.calls i = some call →
      call.stage.at = some (name, k) →
        ∃ cell, s.cells k = some cell ∧
          cell.store = call.store ∧ cell.name = name
  holder :
    ∀ i call k, s.calls i = some call →
      call.stage.working = some k →
        ∃ cell, s.cells k = some cell ∧
          cell.holder = some i ∧ cell.set = false
  request :
    ∀ i call name k ns, s.calls i = some call →
      call.stage.at = some (name, k) →
        call.request = .ensure ns →
          collectionName ns = .ok name

section Owned

variable {dimension : Nat → Nat} {s t : State} {e : Event}

/- A move changes the stage of one call. -/
@[simp] theorem calls_move
    (i j : Nat)
    (call : Call)
    (stage : Stage) :
    (s.move i call stage).calls j =
      if j = i then some { call with stage := stage }
      else s.calls j := by
  simp [State.move, Function.update_apply]

/- A cell is set for itself alone. -/
@[simp] theorem cells_setCell
    (k j : Nat)
    (cell : Cell) :
    (s.setCell k cell).cells j =
      if j = k then some cell else s.cells j := by
  simp [State.setCell, Function.update_apply]

/- A store remembers one name at a time. -/
@[simp] theorem ensured_remember
    (store store' : Nat)
    (name name' : String)
    (k : Option Nat) :
    (s.remember store name k).ensured store' name' =
      if store' = store ∧ name' = name then k
      else s.ensured store' name' := by
  by_cases hStore : store' = store
  · subst hStore
    simp [State.remember, Function.update_apply]
  · simp [State.remember, hStore]

/- A collection is set under its name. -/
@[simp] theorem server_setCollection
    (name name' : String)
    (c : Option Collection) :
    (s.setCollection name c).server name' =
      if name' = name then c else s.server name' := by
  simp [State.setCollection, Function.update_apply]

/- The server has no part in who owns a cell. -/
theorem Owned.server
    (hOwned : Owned s)
    (server : String → Option Collection) :
    Owned { s with server := server } :=
  ⟨hOwned.memo, hOwned.call, hOwned.holder, hOwned.request⟩

/- A cell that has an owner has no other one. -/
theorem Owned.only
    {i j k : Nat} {call call' : Call}
    (hOwned : Owned s)
    (hCall : s.calls i = some call)
    (hWorking : call.stage.working = some k)
    (hCall' : s.calls j = some call')
    (hWorking' : call'.stage.working = some k) :
    j = i := by
  rcases hOwned.holder i call k hCall hWorking with
    ⟨cell, hCell, hHolder, _⟩
  rcases hOwned.holder j call' k hCall' hWorking' with
    ⟨cell', hCell', hHolder', _⟩
  rw [hCell] at hCell'
  cases hCell'
  rw [hHolder] at hHolder'
  exact (Option.some.inj hHolder').symm

/- What a call needs for the stage that it goes to. -/
structure Fitting
    (s : State)
    (i : Nat)
    (call : Call)
    (stage : Stage) : Prop where
  at' :
    ∀ name k, stage.at = some (name, k) →
      (∃ cell, s.cells k = some cell ∧
        cell.store = call.store ∧ cell.name = name) ∧
      ∀ ns, call.request = .ensure ns →
        collectionName ns = .ok name
  working :
    ∀ k, stage.working = some k →
      ∃ cell, s.cells k = some cell ∧
        cell.holder = some i ∧ cell.set = false

/- A call that has ended works on no cell. -/
theorem Stage.Ended.fitting
    {i : Nat} {call : Call} {stage : Stage}
    (hEnded : stage.Ended) :
    Fitting s i call stage := by
  rcases hEnded with ⟨e, rfl⟩ | rfl
  · exact ⟨nofun, nofun⟩
  · exact ⟨nofun, nofun⟩

/- A move to a stage that fits keeps the owners. -/
theorem Owned.move
    {i : Nat} {call : Call} {stage : Stage}
    (hOwned : Owned s)
    (hFitting : Fitting s i call stage) :
    Owned (s.move i call stage) := by
  refine ⟨hOwned.memo, ?_, ?_, ?_⟩
  · intro j c name k hc hAt
    rw [calls_move] at hc
    split at hc
    · cases hc
      exact (hFitting.at' name k hAt).1
    · exact hOwned.call j c name k hc hAt
  · intro j c k hc hWorking
    rw [calls_move] at hc
    split at hc
    · rename_i hEq
      cases hc
      rw [hEq]
      exact hFitting.working k hWorking
    · exact hOwned.holder j c k hc hWorking
  · intro j c name k ns hc hAt hRequest
    rw [calls_move] at hc
    split at hc
    · cases hc
      exact (hFitting.at' name k hAt).2 ns hRequest
    · exact hOwned.request j c name k ns hc hAt hRequest

/- A call changes its cell as it goes on. -/
theorem Owned.exchange
    {i k : Nat} {call : Call} {stage : Stage}
    {cell cell' : Cell}
    (hOwned : Owned s)
    (hCell : s.cells k = some cell)
    (hSame : cell'.store = cell.store ∧ cell'.name = cell.name)
    (hOthers :
      ∀ j c, s.calls j = some c → c.stage.working = some k →
        j = i)
    (hFitting : Fitting (s.setCell k cell') i call stage) :
    Owned ((s.setCell k cell').move i call stage) := by
  have hKeep :
      ∀ j store name,
        (∃ c, s.cells j = some c ∧ c.store = store ∧
          c.name = name) →
        ∃ c, (s.setCell k cell').cells j = some c ∧
          c.store = store ∧ c.name = name := by
    rintro j store name ⟨c, hc, hStore, hName⟩
    rw [cells_setCell]
    split
    · rename_i hEq
      rw [hEq, hCell] at hc
      cases hc
      exact ⟨cell', rfl, hSame.1.trans hStore,
        hSame.2.trans hName⟩
    · exact ⟨c, hc, hStore, hName⟩
  refine ⟨?_, ?_, ?_, ?_⟩
  · intro store name j h
    exact hKeep j store name (hOwned.memo store name j h)
  · intro j c name l hc hAt
    rw [calls_move] at hc
    split at hc
    · cases hc
      exact (hFitting.at' name l hAt).1
    · exact hKeep l _ name (hOwned.call j c name l hc hAt)
  · intro j c l hc hWorking
    rw [calls_move] at hc
    split at hc
    · rename_i hEq
      cases hc
      rw [hEq]
      exact hFitting.working l hWorking
    · rename_i hNe
      have hOther : l ≠ k := by
        rintro rfl
        exact hNe (hOthers j c hc hWorking)
      rcases hOwned.holder j c l hc hWorking with
        ⟨d, hd, hRest⟩
      refine ⟨d, ?_, hRest⟩
      change (s.setCell k cell').cells l = some d
      rw [cells_setCell, if_neg hOther, hd]
  · intro j c name l ns hc hAt hRequest
    rw [calls_move] at hc
    split at hc
    · cases hc
      exact (hFitting.at' name l hAt).2 ns hRequest
    · exact hOwned.request j c name l ns hc hAt hRequest

/- Every step keeps the owners. -/
theorem Owned.step
    (hOwned : Owned s)
    (hMove : Move dimension s e t) :
    Owned t := by
  have hStay :
      ∀ i call name k stage, s.calls i = some call →
        call.stage.at = some (name, k) →
          call.stage.working = some k →
            stage.at = some (name, k) →
              stage.working = some k → ∀ server,
                Fitting { s with server := server } i call
                  stage := by
    intro i call name k stage hCall hAt hWorking hAt' hWorking'
      server
    constructor
    · intro name' k' h
      rw [hAt'] at h
      cases h
      exact ⟨hOwned.call i call name k hCall hAt,
        fun ns => hOwned.request i call name k ns hCall hAt⟩
    · intro k' h
      rw [hWorking'] at h
      cases h
      exact hOwned.holder i call k hCall hWorking
  cases hMove with
  | call i store request stage hFree hStage =>
      have hNone : stage.at = none ∧ stage.working = none := by
        rcases hStage with rfl | ⟨name, rfl⟩
        · exact ⟨rfl, rfl⟩
        · exact ⟨rfl, rfl⟩
      refine ⟨hOwned.memo, ?_, ?_, ?_⟩
      · intro j c name k hc hAt
        simp only [Function.update_apply] at hc
        split at hc
        · cases hc
          rw [hNone.1] at hAt
          cases hAt
        · exact hOwned.call j c name k hc hAt
      · intro j c k hc hWorking
        simp only [Function.update_apply] at hc
        split at hc
        · cases hc
          rw [hNone.2] at hWorking
          cases hWorking
        · exact hOwned.holder j c k hc hWorking
      · intro j c name k ns hc hAt hRequest
        simp only [Function.update_apply] at hc
        split at hc
        · cases hc
          rw [hNone.1] at hAt
          cases hAt
        · exact hOwned.request j c name k ns hc hAt hRequest
  | known i call ns name k hCall hStage hRequest hName hMemo =>
      refine hOwned.move ⟨?_, nofun⟩
      intro name' k' h
      cases h
      refine ⟨hOwned.memo _ _ _ hMemo, ?_⟩
      intro ns' hSame
      rw [hRequest] at hSame
      cases hSame
      exact hName
  | fresh i call ns name k hCall hStage hRequest hName hMemo
      hFresh =>
      have hOld :
          ∀ j (P : Cell → Prop),
            (∃ c, s.cells j = some c ∧ P c) →
              ∃ c, (s.setCell k
                ⟨call.store, name, none, false⟩).cells j =
                  some c ∧ P c := by
        rintro j P ⟨c, hc, hP⟩
        refine ⟨c, ?_, hP⟩
        have hNe : j ≠ k := by
          rintro rfl
          rw [hFresh] at hc
          cases hc
        rw [cells_setCell, if_neg hNe, hc]
      have hNew :
          ∃ c, (s.setCell k
            ⟨call.store, name, none, false⟩).cells k = some c ∧
              c.store = call.store ∧ c.name = name :=
        ⟨_, by rw [cells_setCell, if_pos rfl], rfl, rfl⟩
      refine Owned.move ⟨?_, ?_, ?_, hOwned.request⟩ ⟨?_, nofun⟩
      · intro store' name' j h
        rw [ensured_remember] at h
        split at h
        · rename_i hEq
          cases h
          rw [hEq.1, hEq.2]
          exact hNew
        · exact hOld j _ (hOwned.memo store' name' j h)
      · intro j c name' l hc hAt
        exact hOld l _ (hOwned.call j c name' l hc hAt)
      · intro j c l hc hWorking
        exact hOld l _ (hOwned.holder j c l hc hWorking)
      · intro name' k' h
        cases h
        refine ⟨hNew, ?_⟩
        intro ns' hSame
        rw [hRequest] at hSame
        cases hSame
        exact hName
  | hit i call name k cell hCall hStage hCell hSet =>
      exact hOwned.move ⟨nofun, nofun⟩
  | take i call name k cell hCall hStage hCell hSet hHolder =>
      have hAt : call.stage.at = some (name, k) := by
        rw [hStage]
        rfl
      refine hOwned.exchange hCell ⟨rfl, rfl⟩ ?_ ⟨?_, ?_⟩
      · intro j c hc hWorking
        rcases hOwned.holder j c k hc hWorking with
          ⟨d, hd, hHolder', _⟩
        rw [hCell] at hd
        cases hd
        rw [hHolder] at hHolder'
        cases hHolder'
      · intro name' k' h
        cases h
        rcases hOwned.call i call name k hCall hAt with
          ⟨d, hd, hOf⟩
        rw [hCell] at hd
        cases hd
        exact ⟨⟨{ cell with holder := some i },
          by rw [cells_setCell, if_pos rfl], hOf⟩,
          fun ns => hOwned.request i call name k ns hCall hAt⟩
      · intro k' h
        cases h
        exact ⟨{ cell with holder := some i },
          by rw [cells_setCell, if_pos rfl], rfl, hSet⟩
  | advance i call name k stage server hCall hAt hWorking hStage
      hGrows =>
      refine Owned.move (hOwned.server server)
        (hStay i call name k stage hCall hAt hWorking ?_ ?_
          server)
      · rcases hStage with rfl | rfl <;> rfl
      · rcases hStage with rfl | rfl <;> rfl
  | listed i call name k fields c hCall hStage hServer hFields
      hValid =>
      refine hOwned.move (hStay i call name k _ hCall
        (by rw [hStage]; rfl) (by rw [hStage]; rfl) ?_ ?_
        s.server)
      · rfl
      · rfl
  | indexed i call name k field rest c hCall hStage hServer =>
      refine Owned.move (hOwned.server _)
        (hStay i call name k _ hCall (by rw [hStage]; rfl)
          (by rw [hStage]; rfl) ?_ ?_ _)
      · rfl
      · rfl
  | settle i call name k cell hCall hStage hCell =>
      have hWorking : call.stage.working = some k := by
        rw [hStage]
        rfl
      exact hOwned.exchange hCell ⟨rfl, rfl⟩
        (fun j c => hOwned.only hCall hWorking) ⟨nofun, nofun⟩
  | release i call k stage server hCall hWorking hEnded hGrows =>
      rcases hOwned.holder i call k hCall hWorking with
        ⟨cell, hCell, _⟩
      have hServer := hOwned.server server
      have hRelease :
          { s with server := server }.release k =
            { s with server := server }.setCell k
              { cell with holder := none } := by
        simp only [State.release, hCell]
      rw [hRelease]
      exact hServer.exchange hCell ⟨rfl, rfl⟩
        (fun j c => hOwned.only hCall hWorking) hEnded.fitting
  | quit i call stage hCall hNot hWorking hEnded =>
      exact hOwned.move hEnded.fitting
  | deleted i call name hCall hStage =>
      exact Owned.move (hOwned.server _) ⟨nofun, nofun⟩
  | lost i call name text hCall hStage =>
      exact Owned.move (hOwned.server _) ⟨nofun, nofun⟩
  | forget i call name hCall hStage =>
      refine Owned.move
        ⟨?_, hOwned.call, hOwned.holder, hOwned.request⟩
        ⟨nofun, nofun⟩
      intro store' name' k h
      rw [ensured_remember] at h
      split at h
      · cases h
      · exact hOwned.memo store' name' k h
  | others server hGrows => exact hOwned.server server
  | otherDeletes name => exact hOwned.server _

/- Whoever holds a permit is at work, and gives it back. -/
def Held (s : State) : Prop :=
  ∀ k cell i, s.cells k = some cell → cell.holder = some i →
    ∃ call, s.calls i = some call ∧
      call.stage.working = some k

/- A call that goes on working holds its cell. -/
theorem Held.move
    {i : Nat} {call : Call} {stage : Stage}
    (hHeld : Held s)
    (hCall : s.calls i = some call)
    (hWorking :
      ∀ k, call.stage.working = some k →
        stage.working = some k) :
    Held (s.move i call stage) := by
  intro k cell j hCell hHolder
  rcases hHeld k cell j hCell hHolder with ⟨c, hc, hWorks⟩
  rw [calls_move]
  split
  · rename_i hEq
    rw [hEq, hCall] at hc
    cases hc
    exact ⟨_, rfl, hWorking k hWorks⟩
  · exact ⟨c, hc, hWorks⟩

/- A call takes the permit of its cell or gives it back. -/
theorem Held.exchange
    {i k : Nat} {call : Call} {stage : Stage} {cell : Cell}
    (hHeld : Held s)
    (hCall : s.calls i = some call)
    (hOnly :
      ∀ j, call.stage.working = some j → j = k)
    (hHolder :
      ∀ j, cell.holder = some j →
        j = i ∧ stage.working = some k) :
    Held ((s.setCell k cell).move i call stage) := by
  intro l d j hd hj
  change (s.setCell k cell).cells l = some d at hd
  rw [cells_setCell] at hd
  rw [calls_move]
  split at hd
  · rename_i hEq
    cases hd
    rcases hHolder j hj with ⟨rfl, hWorks⟩
    rw [if_pos rfl]
    exact ⟨_, rfl, by rw [hEq, hWorks]⟩
  · rename_i hNe
    rcases hHeld l d j hd hj with ⟨c, hc, hWorks⟩
    have hOther : j ≠ i := by
      rintro rfl
      rw [hCall] at hc
      cases hc
      exact hNe (hOnly l hWorks)
    rw [if_neg hOther]
    exact ⟨c, hc, hWorks⟩

/- Every step keeps what is held. -/
theorem Held.step
    (hOwned : Owned s)
    (hHeld : Held s)
    (hMove : Move dimension s e t) :
    Held t := by
  cases hMove with
  | call i store request stage hFree hStage =>
      intro k cell j hCell hHolder
      rcases hHeld k cell j hCell hHolder with
        ⟨c, hc, hWorks⟩
      refine ⟨c, ?_, hWorks⟩
      have hNe : j ≠ i := by
        rintro rfl
        rw [hFree] at hc
        cases hc
      simp only [Function.update_of_ne hNe, hc]
  | known i call ns name k hCall hStage hRequest hName hMemo =>
      exact hHeld.move hCall (by rw [hStage]; nofun)
  | fresh i call ns name k hCall hStage hRequest hName hMemo
      hFresh =>
      exact Held.exchange (s := s.remember call.store name
        (some k)) hHeld hCall (by rw [hStage]; nofun) nofun
  | hit i call name k cell hCall hStage hCell hSet =>
      exact hHeld.move hCall (by rw [hStage]; nofun)
  | take i call name k cell hCall hStage hCell hSet hHolder =>
      refine hHeld.exchange hCall (by rw [hStage]; nofun) ?_
      intro j hj
      cases hj
      exact ⟨rfl, rfl⟩
  | advance i call name k stage server hCall hAt hWorking hStage
      hGrows =>
      refine Held.move (s := { s with server := server }) hHeld
        hCall ?_
      intro k' h
      rw [hWorking] at h
      cases h
      rcases hStage with rfl | rfl <;> rfl
  | listed i call name k fields c hCall hStage hServer hFields
      hValid =>
      refine hHeld.move hCall ?_
      rw [hStage]
      exact fun _ => id
  | indexed i call name k field rest c hCall hStage hServer =>
      refine Held.move (s := s.setCollection name _) hHeld
        hCall ?_
      rw [hStage]
      exact fun _ => id
  | settle i call name k cell hCall hStage hCell =>
      refine hHeld.exchange hCall ?_ nofun
      rw [hStage]
      intro j h
      cases h
      rfl
  | release i call k stage server hCall hWorking hEnded hGrows =>
      rcases hOwned.holder i call k hCall hWorking with
        ⟨cell, hCell, _⟩
      have hRelease :
          { s with server := server }.release k =
            { s with server := server }.setCell k
              { cell with holder := none } := by
        simp only [State.release, hCell]
      rw [hRelease]
      refine Held.exchange (s := { s with server := server })
        hHeld hCall ?_ nofun
      rw [hWorking]
      intro j h
      cases h
      rfl
  | quit i call stage hCall hNot hWorking hEnded =>
      exact hHeld.move hCall (by rw [hWorking]; nofun)
  | deleted i call name hCall hStage =>
      exact Held.move (s := s.setCollection name none) hHeld
        hCall (by rw [hStage]; nofun)
  | lost i call name text hCall hStage =>
      exact Held.move (s := s.setCollection name none) hHeld
        hCall (by rw [hStage]; nofun)
  | forget i call name hCall hStage =>
      exact Held.move (s := s.remember call.store name none)
        hHeld hCall (by rw [hStage]; nofun)
  | others server hGrows => exact hHeld
  | otherDeletes name => exact hHeld

/- Both hold in every state that is reached. -/
theorem owned_of_reachable
    (hReach : (machine dimension).Reachable s) :
    Owned s ∧ Held s := by
  rcases hReach with ⟨s₀, es, rfl, hRun⟩
  refine hRun.invariant (I := fun s => Owned s ∧ Held s) ?_ ?_
  · intro s e t hBoth hNext
    have hMove := State.next_eq_some hNext
    exact ⟨hBoth.1.step hMove, hBoth.2.step hBoth.1 hMove⟩
  · exact ⟨⟨nofun, nofun, nofun, nofun⟩, nofun⟩

/- The requests of a call that finds nothing, all served. -/
def served (i fresh : Nat) : List Event :=
  [.entry i fresh, .acquire i, .reply i .ok, .reply i .ok,
    .reply i (.seen [])] ++
    List.replicate indexedFields.length (.reply i .ok) ++
    [.settle i]

/-
  Of the calls that go by one cell, one at most sends
  requests, and none once the cell is set; a call that waits
  can go on, or waits for another one that is at work.
-/
theorem one_initializer
    {i k : Nat} {call : Call}
    (hReach : (machine dimension).Reachable s)
    (hCall : s.calls i = some call) :
    (call.stage.working = some k →
      (∃ cell, s.cells k = some cell ∧ cell.set = false) ∧
        ∀ j c, s.calls j = some c →
          c.stage.working = some k → j = i) ∧
    (∀ name, call.stage = .waiting name k →
      (∃ t, s.next dimension (.acquire i) = some t) ∨
        ∃ j c, j ≠ i ∧ s.calls j = some c ∧
          c.stage.working = some k) := by
  rcases owned_of_reachable hReach with ⟨hOwned, hHeld⟩
  constructor
  · intro hWorking
    rcases hOwned.holder i call k hCall hWorking with
      ⟨cell, hCell, _, hSet⟩
    exact ⟨⟨cell, hCell, hSet⟩,
      fun j c => hOwned.only hCall hWorking⟩
  · intro name hStage
    rcases hOwned.call i call name k hCall (by rw [hStage]; rfl)
      with ⟨cell, hCell, _⟩
    cases hHolder : cell.holder with
    | none =>
        refine .inl ?_
        rcases call with ⟨store, request, stage⟩
        cases hStage
        simp only [State.next, hCall, hCell, hHolder,
          Option.isNone_none, if_true]
        split <;> exact ⟨_, rfl⟩
    | some j =>
        rcases hHeld k cell j hCell hHolder with
          ⟨c, hc, hWorks⟩
        refine .inr ⟨j, c, ?_, hc, hWorks⟩
        rintro rfl
        rw [hCall] at hc
        cases hc
        rw [hStage] at hWorks
        cases hWorks

theorem one_initializer_second_call :
    ∃ s, (machine (fun _ => 384)).Reachable s ∧
      (∀ j c, s.calls j = some c → c.stage.working = some 7 →
        j = 0) ∧
      ∃ j c, j ≠ 1 ∧ s.calls j = some c ∧
        c.stage.working = some 7 := by
  rcases Machine.Run.of_any (fun s => s = .start) State.start
    [.call 0 0 (.ensure "n"), .call 1 0 (.ensure "n"),
      .entry 0 7, .entry 1 8, .acquire 0]
    (fun s =>
      s.calls 0 = some
        ⟨0, .ensure "n", .exists "ferrex_n" 7⟩ ∧
      s.calls 1 = some
        ⟨0, .ensure "n", .waiting "ferrex_n" 7⟩ ∧
      (s.next (fun _ => 384) (.acquire 1)).isNone)
    (show (List.foldlM (State.next (fun _ => 384)) _ _).any _ =
      true from by decide +kernel) with ⟨s, hRun, hTest⟩
  rcases of_decide_eq_true hTest with ⟨hFirst, hSecond, hStuck⟩
  have hReach : (machine (fun _ => 384)).Reachable s :=
    ⟨_, _, rfl, hRun⟩
  refine ⟨s, hReach, ((one_initializer hReach hFirst).1 rfl).2,
    ?_⟩
  rcases (one_initializer hReach hSecond).2 _ rfl with
    ⟨t, hNext⟩ | hOther
  · rw [hNext] at hStuck
    cases hStuck
  · exact hOther

end Owned

end Ensure

end Store

end Ferrex
