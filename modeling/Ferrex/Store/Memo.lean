import Ferrex.Store.Initializer

/-
  What the stores say of the collections, against what the
  server has: a memo of a store that alone deletes is right,
  and where nobody deletes all stores that were told of a
  namespace agree on it.

  Main declarations:
    * `Collection.FitsBut`, `Ready`
    * `Trusty`, `memo_ready`
    * `Sure`, `answers_agree`
-/

------------------------------------------------------------
-- What a Memo Is Worth
------------------------------------------------------------

namespace Ferrex

namespace Store

namespace Ensure

/- A collection for a dimension, but for some of its indexes. -/
def Collection.FitsBut
    (c : Collection)
    (dimension : Nat)
    (rest : List String) : Prop :=
  (∃ vectors, c.vectors = some vectors ∧
    vectors.lookup denseVector = some dimension) ∧
    ∀ f ∈ indexedFields, f ∈ rest ∨ f ∈ c.indexed

def Collection.Fits
    (c : Collection)
    (dimension : Nat) : Prop :=
  c.FitsBut dimension []

def Ready
    (server : String → Option Collection)
    (dimension : Nat)
    (name : String)
    (rest : List String) : Prop :=
  ∃ c, server name = some c ∧ c.FitsBut dimension rest

/- A deletion that the map does not show yet. -/
def State.Forgets (s : State) (p : Nat) (name : String) : Prop :=
  ∃ i call, s.calls i = some call ∧ call.store = p ∧
    call.stage = .forget name

/- The store that a call deletes a collection for. -/
def State.deleter (s : State) (i : Nat) : Option Nat :=
  match s.calls i with
  | some ⟨store, _, .delete _⟩ => some store
  | _ => none

/- Only a store `p` deletes, and it hears of its deletions. -/
def onlyBy (p : Nat) (s : State) : Event → Bool
| .otherDeletes _ => false
| .reply i .ok => (s.deleter i).all (fun q => q = p)
| .reply i (.lost _) => (s.deleter i).isNone
| _ => true

/- Nobody deletes a collection. -/
def nobody (s : State) : Event → Bool
| .otherDeletes _ => false
| .reply i .ok => (s.deleter i).isNone
| .reply i (.lost _) => (s.deleter i).isNone
| _ => true

theorem State.deleter_eq
    {s : State} {i : Nat} {call : Call} {name : String}
    (hCall : s.calls i = some call)
    (hStage : call.stage = .delete name) :
    s.deleter i = some call.store := by
  rcases call with ⟨store, request, stage⟩
  cases hStage
  rw [State.deleter, hCall]

section Memo

variable {dimension : Nat → Nat} {s t : State} {e : Event}
variable {p : Nat}

theorem Ready.grows
    {server server' : String → Option Collection}
    {d : Nat} {name : String} {rest : List String}
    (hReady : Ready server d name rest)
    (hGrows : Grows server server') :
    Ready server' d name rest := by
  rcases hReady with ⟨c, hc, ⟨vectors, hVectors, hDense⟩, hAll⟩
  rcases hGrows name c hc with ⟨c', hc', hSame, hSubset⟩
  refine ⟨c', hc', ⟨vectors, hSame.trans hVectors, hDense⟩, ?_⟩
  intro f hf
  exact (hAll f hf).imp_right (fun h => hSubset h)

/- What was validated only lacks what was not listed. -/
theorem Ready.of_listed
    {d : Nat} {name : String} {fields : List String}
    {c : Collection}
    (hServer : s.server name = some c)
    (hFields : ∀ f ∈ fields, f ∈ c.indexed)
    (hValid : validateCollectionSchema d name c = .ok ()) :
    Ready s.server d name
      (indexedFields.filter (fun f => !fields.contains f)) := by
  refine ⟨c, hServer, ?_, ?_⟩
  · rw [validateCollectionSchema] at hValid
    split at hValid
    · cases hValid
    · rename_i vectors hVectors
      split at hValid
      · rename_i hDense
        exact ⟨vectors, hVectors, hDense⟩
      · cases hValid
  · intro f hf
    by_cases hListed : f ∈ fields
    · exact .inr (hFields f hListed)
    · refine .inl (List.mem_filter.mpr ⟨hf, ?_⟩)
      simpa using hListed

/- One more of the fields is indexed. -/
theorem Ready.of_indexed
    {d : Nat} {name field : String} {rest : List String}
    {c : Collection}
    (hServer : s.server name = some c)
    (hReady : Ready s.server d name (field :: rest)) :
    Ready (s.setCollection name (some
      { c with indexed := field :: c.indexed })).server d name
        rest := by
  rcases hReady with ⟨c', hc', hDense, hAll⟩
  rw [hServer] at hc'
  cases hc'
  refine ⟨{ c with indexed := field :: c.indexed },
    by rw [server_setCollection, if_pos rfl], hDense, ?_⟩
  intro f hf
  rcases hAll f hf with hRest | hIndexed
  · rcases List.mem_cons.mp hRest with rfl | hRest
    · exact .inr List.mem_cons_self
    · exact .inl hRest
  · exact .inr (List.mem_cons_of_mem _ hIndexed)

/- What the memo of `p` and its calls go by is there. -/
structure Trusty
    (dimension : Nat → Nat)
    (p : Nat)
    (s : State) : Prop where
  memo :
    ∀ name k cell, s.ensured p name = some k →
      s.cells k = some cell → cell.set = true →
        ¬ s.Forgets p name →
          Ready s.server (dimension p) name []
  index :
    ∀ i call name k rest, s.calls i = some call →
      call.store = p → call.stage = .index name k rest →
        s.ensured p name = some k → ¬ s.Forgets p name →
          Ready s.server (dimension p) name rest

/- What a step may change, and what it has to show for it. -/
theorem Trusty.of
    (hTrusty : Trusty dimension p s)
    (hForgets :
      ∀ name k, t.ensured p name = some k →
        ¬ t.Forgets p name → ¬ s.Forgets p name)
    (hServer :
      ∀ name rest, ¬ t.Forgets p name →
        Ready s.server (dimension p) name rest →
          Ready t.server (dimension p) name rest)
    (hMemo :
      ∀ name k cell, t.ensured p name = some k →
        t.cells k = some cell → cell.set = true →
          ¬ s.Forgets p name →
          (s.ensured p name = some k ∧
            ∃ cell, s.cells k = some cell ∧ cell.set = true) ∨
          Ready s.server (dimension p) name [])
    (hIndex :
      ∀ i call name k rest, t.calls i = some call →
        call.store = p → call.stage = .index name k rest →
          t.ensured p name = some k → ¬ s.Forgets p name →
          (s.ensured p name = some k ∧ s.calls i = some call) ∨
          Ready t.server (dimension p) name rest) :
    Trusty dimension p t where
  memo name k cell hk hCell hSet hNot := by
    have hNot' := hForgets name k hk hNot
    refine hServer name [] hNot ?_
    rcases hMemo name k cell hk hCell hSet hNot' with
      ⟨hk', cell', hCell', hSet'⟩ | hReady
    · exact hTrusty.memo name k cell' hk' hCell' hSet' hNot'
    · exact hReady
  index i call name k rest hCall hStore hStage hk hNot := by
    have hNot' := hForgets name k hk hNot
    rcases hIndex i call name k rest hCall hStore hStage hk hNot'
      with ⟨hk', hCall'⟩ | hReady
    · exact hServer name rest hNot (hTrusty.index i call name k
        rest hCall' hStore hStage hk' hNot')
    · exact hReady

/- The name of a deletion that is not forgotten yet. -/
def Stage.forgets : Stage → Option String
| .forget name => some name
| _ => none

theorem ne_forget
    {call : Call} {stage : Stage}
    (hStage : call.stage = stage)
    (hNot : stage.forgets = none)
    (name : String) :
    call.stage ≠ .forget name := by
  intro h
  rw [← hStage, h] at hNot
  cases hNot

theorem forgets_move
    {i : Nat} {call : Call} {stage : Stage} {name : String}
    (hCall : s.calls i = some call)
    (hNot : ∀ name, call.stage ≠ .forget name)
    (h : s.Forgets p name) :
    (s.move i call stage).Forgets p name := by
  rcases h with ⟨j, c, hc, hStore, hStage⟩
  refine ⟨j, c, ?_, hStore, hStage⟩
  have hNe : j ≠ i := by
    rintro rfl
    rw [hCall] at hc
    cases hc
    exact hNot name hStage
  rw [calls_move, if_neg hNe, hc]

/- A call goes on, and neither the map nor a cell is changed. -/
theorem Trusty.move
    {i : Nat} {call : Call} {stage : Stage}
    {server : String → Option Collection}
    (hTrusty : Trusty dimension p s)
    (hCall : s.calls i = some call)
    (hNot : ∀ name, call.stage ≠ .forget name)
    (hGrows : Grows s.server server)
    (hIndex :
      ∀ name k rest, call.store = p →
        stage = .index name k rest →
          s.ensured p name = some k → ¬ s.Forgets p name →
            Ready server (dimension p) name rest) :
    Trusty dimension p
      ({ s with server := server }.move i call stage) := by
  refine hTrusty.of ?_ ?_ ?_ ?_
  · intro name k _ hNone hForgets
    exact hNone (forgets_move (s := { s with server := server })
      hCall hNot hForgets)
  · intro name rest _ hReady
    exact hReady.grows hGrows
  · intro name k cell hk hCell hSet _
    exact .inl ⟨hk, cell, hCell, hSet⟩
  · intro j c name k rest hc hStore hStage hk hNone
    rw [calls_move] at hc
    split at hc
    · cases hc
      exact .inr (hIndex name k rest hStore hStage hk hNone)
    · exact .inl ⟨hk, hc⟩

/- A cell is changed, and set only by who has the right to. -/
theorem Trusty.exchange
    {i k : Nat} {call : Call} {stage : Stage} {cell : Cell}
    {server : String → Option Collection}
    (hTrusty : Trusty dimension p s)
    (hCall : s.calls i = some call)
    (hNot : ∀ name, call.stage ≠ .forget name)
    (hGrows : Grows s.server server)
    (hIndex : ∀ name j rest, stage ≠ .index name j rest)
    (hSet :
      ∀ name, s.ensured p name = some k → cell.set = true →
        ¬ s.Forgets p name →
        (∃ d, s.cells k = some d ∧ d.set = true) ∨
          Ready s.server (dimension p) name []) :
    Trusty dimension p
      (({ s with server := server }.setCell k cell).move i call
        stage) := by
  refine hTrusty.of ?_ ?_ ?_ ?_
  · intro name j _ hNone hForgets
    exact hNone (forgets_move
      (s := { s with server := server }.setCell k cell)
      hCall hNot hForgets)
  · intro name rest _ hReady
    exact hReady.grows hGrows
  · intro name j d hj hd hIsSet hNone
    change ({ s with server := server }.setCell k cell).cells j =
      some d at hd
    rw [cells_setCell] at hd
    split at hd
    · rename_i hEq
      cases hd
      rw [hEq] at hj ⊢
      exact (hSet name hj hIsSet hNone).imp_left
        (fun hOld => ⟨hj, hOld⟩)
    · exact .inl ⟨hj, d, hd, hIsSet⟩
  · intro j c name l rest hc hStore hStage hl _
    rw [calls_move] at hc
    split at hc
    · cases hc
      exact absurd hStage (hIndex name l rest)
    · exact .inl ⟨hl, hc⟩

theorem Trusty.step
    (hOwned : Owned s)
    (hTrusty : Trusty dimension p s)
    (hGuard : onlyBy p s e = true)
    (hMove : Move dimension s e t) :
    Trusty dimension p t := by
  have hRefl := Grows.refl s.server
  cases hMove with
  | call i store request stage hFree hStage =>
      refine hTrusty.of ?_ (fun _ _ _ => id) ?_ ?_
      · rintro name k _ hNone ⟨j, c, hc, hOf, hForget⟩
        refine hNone ⟨j, c, ?_, hOf, hForget⟩
        have hNe : j ≠ i := by
          rintro rfl
          rw [hFree] at hc
          cases hc
        simp only [Function.update_of_ne hNe, hc]
      · intro name k cell hk hCell hSet _
        exact .inl ⟨hk, cell, hCell, hSet⟩
      · intro j c name k rest hc hStore hIndex hk _
        simp only [Function.update_apply] at hc
        split at hc
        · cases hc
          rcases hStage with rfl | ⟨name, rfl⟩ <;> cases hIndex
        · exact .inl ⟨hk, hc⟩
  | known i call ns name k hCall hStage hRequest hName hMemo =>
      exact hTrusty.move hCall (ne_forget hStage rfl) hRefl
        (fun _ _ _ _ h => by cases h)
  | fresh i call ns name k hCall hStage hRequest hName hMemo
      hFresh =>
      refine hTrusty.of ?_ (fun _ _ _ => id) ?_ ?_
      · intro name' j _ hNone hForgets
        refine hNone (forgets_move hCall (ne_forget hStage rfl)
          hForgets)
      · intro name' j d hj hd hSet _
        change (s.setCell k _).cells j = some d at hd
        rw [cells_setCell] at hd
        split at hd
        · cases hd
          cases hSet
        · rename_i hNe
          change ((s.setCell k _).remember call.store name
            (some k)).ensured p name' = some j at hj
          rw [ensured_remember] at hj
          split at hj
          · cases hj
            exact absurd rfl hNe
          · exact .inl ⟨hj, d, hd, hSet⟩
      · intro j c name' l rest hc hStore hIndex hl _
        rw [calls_move] at hc
        split at hc
        · cases hc
          cases hIndex
        · refine .inl ⟨?_, hc⟩
          change ((s.setCell k _).remember call.store name
            (some k)).ensured p name' = some l at hl
          rw [ensured_remember] at hl
          split at hl
          · cases hl
            rcases hOwned.call j c name' k hc (by rw [hIndex]; rfl)
              with ⟨d, hd, _⟩
            rw [hFresh] at hd
            cases hd
          · exact hl
  | hit i call name k cell hCall hStage hCell hSet =>
      exact hTrusty.move hCall (ne_forget hStage rfl) hRefl
        (fun _ _ _ _ h => by cases h)
  | take i call name k cell hCall hStage hCell hSet hHolder =>
      refine Trusty.exchange hTrusty hCall (ne_forget hStage rfl)
        hRefl (fun _ _ _ h => by cases h) ?_
      intro name' _ hIsSet
      rw [hSet] at hIsSet
      cases hIsSet
  | advance i call name k stage server hCall hAt hWorking hStage
      hGrows =>
      refine hTrusty.move hCall ?_ hGrows ?_
      · intro name' h
        rw [h] at hWorking
        cases hWorking
      · intro name' k' rest _ h
        rcases hStage with rfl | rfl <;> cases h
  | listed i call name k fields c hCall hStage hServer hFields
      hValid =>
      refine hTrusty.move hCall (ne_forget hStage rfl) hRefl ?_
      intro name' k' rest hStore h _ _
      cases h
      exact .of_listed hServer hFields (hStore ▸ hValid)
  | indexed i call name k field rest c hCall hStage hServer =>
      refine hTrusty.move hCall (ne_forget hStage rfl)
        (State.grows_index field hServer) ?_
      intro name' k' rest' hStore h hk hNone
      cases h
      exact .of_indexed hServer (hTrusty.index i call name k _
        hCall hStore hStage hk hNone)
  | settle i call name k cell hCall hStage hCell =>
      refine Trusty.exchange hTrusty hCall (ne_forget hStage rfl)
        hRefl (fun _ _ _ h => by cases h) ?_
      intro name' hk _ hNone
      have hAt : call.stage.at = some (name, k) := by
        rw [hStage]
        rfl
      rcases hOwned.call i call name k hCall hAt with
        ⟨d, hd, hStore, hName⟩
      rcases hOwned.memo p name' k hk with
        ⟨d', hd', hStore', hName'⟩
      rw [hd] at hd'
      cases hd'
      rw [hName] at hName'
      subst hName'
      exact .inr (hTrusty.index i call name k [] hCall
        (hStore.symm.trans hStore') hStage hk hNone)
  | release i call k stage server hCall hWorking hEnded hGrows =>
      rcases hOwned.holder i call k hCall hWorking with
        ⟨cell, hCell, _, hSet⟩
      have hRelease :
          { s with server := server }.release k =
            { s with server := server }.setCell k
              { cell with holder := none } := by
        simp only [State.release, hCell]
      rw [hRelease]
      refine Trusty.exchange hTrusty hCall ?_ hGrows ?_ ?_
      · intro name h
        rw [h] at hWorking
        cases hWorking
      · intro name j rest
        rcases hEnded with ⟨e, rfl⟩ | rfl <;>
          exact fun h => by cases h
      · intro name _ hIsSet
        rw [hSet] at hIsSet
        cases hIsSet
  | quit i call stage hCall hNot hWorking hEnded =>
      refine hTrusty.move hCall hNot hRefl ?_
      intro name k rest _ h
      rcases hEnded with ⟨e, rfl⟩ | rfl <;> cases h
  | deleted i call name hCall hStage =>
      have hStore : call.store = p := by
        rw [onlyBy, State.deleter_eq hCall hStage] at hGuard
        exact of_decide_eq_true hGuard
      refine hTrusty.of ?_ ?_ ?_ ?_
      · intro name' k _ hNone hForgets
        exact hNone (forgets_move hCall (ne_forget hStage rfl)
          hForgets)
      · intro name' rest hNone hReady
        rcases hReady with ⟨c, hc, hFits⟩
        refine ⟨c, ?_, hFits⟩
        change (s.setCollection name none).server name' = some c
        rw [server_setCollection, if_neg, hc]
        rintro rfl
        refine hNone ⟨i, { call with stage := .forget name' }, ?_,
          hStore, rfl⟩
        rw [calls_move, if_pos rfl]
      · intro name' k cell hk hCell hSet _
        exact .inl ⟨hk, cell, hCell, hSet⟩
      · intro j c name' k rest hc hOf hIndex hk _
        rw [calls_move] at hc
        split at hc
        · cases hc
          cases hIndex
        · exact .inl ⟨hk, hc⟩
  | lost i call name text hCall hStage =>
      rw [onlyBy, State.deleter_eq hCall hStage] at hGuard
      cases hGuard
  | forget i call name hCall hStage =>
      refine hTrusty.of ?_ (fun _ _ _ => id) ?_ ?_
      · rintro name' k hk hNone ⟨j, c, hc, hOf, hForget⟩
        change (s.remember call.store name none).ensured p name' =
          some k at hk
        rw [ensured_remember] at hk
        split at hk
        · cases hk
        · rename_i hOther
          refine hNone ⟨j, c, ?_, hOf, hForget⟩
          have hNe : j ≠ i := by
            rintro rfl
            rw [hCall] at hc
            cases hc
            rw [hStage] at hForget
            cases hForget
            exact hOther ⟨hOf.symm, rfl⟩
          rw [calls_move, if_neg hNe]
          exact hc
      · intro name' k cell hk hCell hSet _
        change (s.remember call.store name none).ensured p name' =
          some k at hk
        rw [ensured_remember] at hk
        split at hk
        · cases hk
        · exact .inl ⟨hk, cell, hCell, hSet⟩
      · intro j c name' k rest hc hOf hIndex hk _
        change (s.remember call.store name none).ensured p name' =
          some k at hk
        rw [ensured_remember] at hk
        rw [calls_move] at hc
        split at hk
        · cases hk
        · split at hc
          · cases hc
            cases hIndex
          · exact .inl ⟨hk, hc⟩
  | others server hGrows =>
      refine hTrusty.of (fun _ _ _ hNone => hNone) ?_ ?_ ?_
      · intro name rest _ hReady
        exact hReady.grows hGrows
      · intro name k cell hk hCell hSet _
        exact .inl ⟨hk, cell, hCell, hSet⟩
      · intro j c name k rest hc _ _ hk _
        exact .inl ⟨hk, hc⟩
  | otherDeletes name => cases hGuard

/-
  As long as a store alone deletes collections, and hears of
  it, a name that it has checked and not forgotten since is a
  collection of its dimension with all fields indexed, unless
  a deletion of that name is about to be forgotten.
-/
theorem memo_ready
    {es : List Event} {name : String} {k : Nat} {cell : Cell}
    (hRun :
      ((machine dimension).restrict
        (fun s e => onlyBy p s e = true)).Run .start es s)
    (hMemo : s.ensured p name = some k)
    (hCell : s.cells k = some cell)
    (hSet : cell.set = true)
    (hForgets : ¬ s.Forgets p name) :
    ∃ c, s.server name = some c ∧ c.Fits (dimension p) := by
  have hBoth : Owned s ∧ Trusty dimension p s := by
    refine hRun.restrict_invariant
      (I := fun s => Owned s ∧ Trusty dimension p s) ?_ ?_
    · intro s e t hBoth hNext hGuard
      have hMove := State.next_eq_some hNext
      exact ⟨hBoth.1.step hMove,
        hBoth.2.step hBoth.1 hGuard hMove⟩
    · exact ⟨⟨nofun, nofun, nofun, nofun⟩, ⟨nofun, nofun⟩⟩
  exact hBoth.2.memo name k cell hMemo hCell hSet hForgets

/- No call comes up but by its own event. -/
theorem calls_eq_none
    {i : Nat}
    (hNone : s.calls i = none)
    (hNot : ∀ store request, e ≠ .call i store request)
    (hMove : Move dimension s e t) :
    t.calls i = none := by
  have hOther :
      ∀ j call stage, s.calls j = some call →
        (s.move j call stage).calls i = none := by
    intro j call stage hCall
    have hNe : i ≠ j := by
      rintro rfl
      rw [hNone] at hCall
      cases hCall
    rw [calls_move, if_neg hNe, hNone]
  cases hMove with
  | call j store request stage hFree hStage =>
      have hNe : i ≠ j := by
        rintro rfl
        exact hNot store request rfl
      simp only [Function.update_of_ne hNe, hNone]
  | release j call k stage server hCall hWorking hEnded hGrows =>
      rw [State.release]
      split
      · exact hOther j call stage hCall
      · exact hOther j call stage hCall
  | known j call ns name k hCall => exact hOther j call _ hCall
  | fresh j call ns name k hCall => exact hOther j call _ hCall
  | hit j call name k cell hCall => exact hOther j call _ hCall
  | take j call name k cell hCall => exact hOther j call _ hCall
  | advance j call name k stage server hCall =>
      exact hOther j call stage hCall
  | listed j call name k fields c hCall =>
      exact hOther j call _ hCall
  | indexed j call name k field rest c hCall =>
      exact hOther j call _ hCall
  | settle j call name k cell hCall =>
      exact hOther j call _ hCall
  | quit j call stage hCall => exact hOther j call stage hCall
  | deleted j call name hCall => exact hOther j call _ hCall
  | lost j call name text hCall => exact hOther j call _ hCall
  | forget j call name hCall => exact hOther j call _ hCall
  | others server hGrows => exact hNone
  | otherDeletes name => exact hNone

theorem calls_eq_none_of_run
    {es : List Event} {guard : State → Event → Prop} {i : Nat}
    (hRun :
      ((machine dimension).restrict guard).Run .start es s)
    (hNot : ∀ store request, Event.call i store request ∉ es) :
    s.calls i = none := by
  induction hRun with
  | nil => rfl
  | snoc _ hStep ih =>
      refine calls_eq_none
        (ih (fun store request h =>
          hNot store request (List.mem_append_left _ h)))
        ?_ (State.next_eq_some hStep.1)
      rintro store request rfl
      exact hNot store request (by simp)

theorem memo_ready_after_deletion :
    ∃ es s,
      ((machine (fun _ => 384)).restrict
        (fun s e => onlyBy 0 s e = true)).Run .start es s ∧
      Event.forget 1 ∈ es ∧
      ∃ c, s.server "ferrex_n" = some c ∧ c.Fits 384 := by
  rcases Machine.Run.restrict_of_any
    (fun s => s = .start) State.start
    (.call 0 0 (.ensure "n") :: served 0 7 ++
      [.call 1 0 (.delete "ferrex_n"), .reply 1 .ok, .forget 1,
        .call 2 0 (.ensure "n")] ++ served 2 8)
    (fun s => s.ensured 0 "ferrex_n" = some 8 ∧
      s.cells 8 = some ⟨0, "ferrex_n", none, true⟩ ∧
      ∀ i ∈ List.range 3, ∀ call ∈ s.calls i,
        call.stage = .returned (.ok ()))
    (fun s e => (id : onlyBy 0 s e = true → _))
    (show (List.foldlM (Machine.checked
      (State.next (fun _ => 384)) (onlyBy 0)) _ _).any _ = true
      from by decide +kernel)
    with ⟨s, hRun, hTest⟩
  rcases of_decide_eq_true hTest with ⟨hMemo, hCell, hEnded⟩
  refine ⟨_, s, hRun, by simp,
    memo_ready hRun hMemo hCell rfl ?_⟩
  rintro ⟨i, call, hCall, _, hStage⟩
  rcases Nat.lt_or_ge i 3 with hLt | hGe
  · rw [hEnded i (List.mem_range.mpr hLt) call hCall] at hStage
    cases hStage
  · have hNone := calls_eq_none_of_run (i := i) hRun (by
      intro store request hMem
      simp [served, indexedFields] at hMem
      omega)
    rw [hNone] at hCall
    cases hCall

/- Where nobody deletes, what has been said goes on to hold. -/
structure Sure
    (dimension : Nat → Nat)
    (s : State) : Prop where
  cells :
    ∀ k cell, s.cells k = some cell → cell.set = true →
      Ready s.server (dimension cell.store) cell.name []
  index :
    ∀ i call name k rest, s.calls i = some call →
      call.stage = .index name k rest →
        Ready s.server (dimension call.store) name rest
  answered :
    ∀ i call ns, s.calls i = some call →
      call.request = .ensure ns →
        call.stage = .returned (.ok ()) →
          ∃ name, collectionName ns = .ok name ∧
            Ready s.server (dimension call.store) name []
  forget :
    ∀ i call name, s.calls i = some call →
      call.stage ≠ .forget name

/- What a call needs to go on where nobody deletes. -/
structure Backed
    (dimension : Nat → Nat)
    (server : String → Option Collection)
    (call : Call)
    (stage : Stage) : Prop where
  index :
    ∀ name k rest, stage = .index name k rest →
      Ready server (dimension call.store) name rest
  answered :
    ∀ ns, call.request = .ensure ns →
      stage = .returned (.ok ()) →
        ∃ name, collectionName ns = .ok name ∧
          Ready server (dimension call.store) name []
  forget : ∀ name, stage ≠ .forget name

theorem Stage.Ended.backed
    {server : String → Option Collection} {call : Call}
    {stage : Stage}
    (hEnded : stage.Ended) :
    Backed dimension server call stage := by
  rcases hEnded with ⟨e, rfl⟩ | rfl
  · exact ⟨nofun, nofun, nofun⟩
  · exact ⟨nofun, nofun, nofun⟩

theorem Sure.grow
    {server : String → Option Collection}
    (hSure : Sure dimension s)
    (hGrows : Grows s.server server) :
    Sure dimension { s with server := server } where
  cells k cell hCell hSet :=
    (hSure.cells k cell hCell hSet).grows hGrows
  index i call name k rest hCall hStage :=
    (hSure.index i call name k rest hCall hStage).grows hGrows
  answered i call ns hCall hRequest hStage := by
    rcases hSure.answered i call ns hCall hRequest hStage with
      ⟨name, hName, hReady⟩
    exact ⟨name, hName, hReady.grows hGrows⟩
  forget := hSure.forget

theorem Sure.move
    {i : Nat} {call : Call} {stage : Stage}
    (hSure : Sure dimension s)
    (hBacked : Backed dimension s.server call stage) :
    Sure dimension (s.move i call stage) := by
  refine ⟨hSure.cells, ?_, ?_, ?_⟩
  · intro j c name k rest hc hStage
    rw [calls_move] at hc
    split at hc
    · cases hc
      exact hBacked.index name k rest hStage
    · exact hSure.index j c name k rest hc hStage
  · intro j c ns hc hRequest hStage
    rw [calls_move] at hc
    split at hc
    · cases hc
      exact hBacked.answered ns hRequest hStage
    · exact hSure.answered j c ns hc hRequest hStage
  · intro j c name hc
    rw [calls_move] at hc
    split at hc
    · cases hc
      exact hBacked.forget name
    · exact hSure.forget j c name hc

theorem Sure.setCell
    {k : Nat} {cell : Cell}
    (hSure : Sure dimension s)
    (hSet :
      cell.set = true →
        Ready s.server (dimension cell.store) cell.name []) :
    Sure dimension (s.setCell k cell) := by
  refine ⟨?_, hSure.index, hSure.answered, hSure.forget⟩
  intro j d hd hIsSet
  rw [cells_setCell] at hd
  split at hd
  · cases hd
    exact hSet hIsSet
  · exact hSure.cells j d hd hIsSet

theorem Sure.step
    (hOwned : Owned s)
    (hSure : Sure dimension s)
    (hGuard : nobody s e = true)
    (hMove : Move dimension s e t) :
    Sure dimension t := by
  cases hMove with
  | call i store request stage hFree hStage =>
      refine ⟨hSure.cells, ?_, ?_, ?_⟩
      · intro j c name k rest hc hIndex
        simp only [Function.update_apply] at hc
        split at hc
        · cases hc
          rcases hStage with rfl | ⟨name, rfl⟩ <;> cases hIndex
        · exact hSure.index j c name k rest hc hIndex
      · intro j c ns hc hRequest hReturned
        simp only [Function.update_apply] at hc
        split at hc
        · cases hc
          rcases hStage with rfl | ⟨name, rfl⟩ <;>
            cases hReturned
        · exact hSure.answered j c ns hc hRequest hReturned
      · intro j c name hc
        simp only [Function.update_apply] at hc
        split at hc
        · cases hc
          rcases hStage with rfl | ⟨name, rfl⟩ <;> nofun
        · exact hSure.forget j c name hc
  | known i call ns name k hCall hStage hRequest hName hMemo =>
      exact hSure.move ⟨nofun, nofun, nofun⟩
  | fresh i call ns name k hCall hStage hRequest hName hMemo
      hFresh =>
      have hCell :
          Sure dimension (s.setCell k
            ⟨call.store, name, none, false⟩) :=
        hSure.setCell nofun
      exact Sure.move
        ⟨hCell.cells, hCell.index, hCell.answered, hCell.forget⟩
        ⟨nofun, nofun, nofun⟩
  | hit i call name k cell hCall hStage hCell hSet =>
      refine hSure.move ⟨nofun, ?_, nofun⟩
      intro ns hRequest _
      have hAt : call.stage.at = some (name, k) := by
        rw [hStage]
        rfl
      rcases hOwned.call i call name k hCall hAt with
        ⟨d, hd, hStore, hName⟩
      rw [hCell] at hd
      cases hd
      rw [← hStore]
      exact ⟨name,
        hOwned.request i call name k ns hCall hAt hRequest,
        hName ▸ hSure.cells k cell hCell hSet⟩
  | take i call name k cell hCall hStage hCell hSet hHolder =>
      refine Sure.move (hSure.setCell ?_) ⟨nofun, nofun, nofun⟩
      intro hIsSet
      rw [hSet] at hIsSet
      cases hIsSet
  | advance i call name k stage server hCall hAt hWorking hStage
      hGrows =>
      refine Sure.move (hSure.grow hGrows) ⟨?_, ?_, ?_⟩
      · intro name' k' rest h
        rcases hStage with rfl | rfl <;> cases h
      · intro ns _ h
        rcases hStage with rfl | rfl <;> cases h
      · intro name' h
        rcases hStage with rfl | rfl <;> cases h
  | listed i call name k fields c hCall hStage hServer hFields
      hValid =>
      refine hSure.move ⟨?_, nofun, nofun⟩
      intro name' k' rest h
      cases h
      exact .of_listed hServer hFields hValid
  | indexed i call name k field rest c hCall hStage hServer =>
      refine Sure.move
        (hSure.grow (State.grows_index field hServer))
        ⟨?_, nofun, nofun⟩
      intro name' k' rest' h
      cases h
      exact .of_indexed hServer
        (hSure.index i call name k _ hCall hStage)
  | settle i call name k cell hCall hStage hCell =>
      have hReady := hSure.index i call name k [] hCall hStage
      have hAt : call.stage.at = some (name, k) := by
        rw [hStage]
        rfl
      rcases hOwned.call i call name k hCall hAt with
        ⟨d, hd, hStore, hName⟩
      rw [hCell] at hd
      cases hd
      refine Sure.move (hSure.setCell ?_) ⟨nofun, ?_, nofun⟩
      · intro _
        rw [hStore, hName]
        exact hReady
      · intro ns hRequest _
        exact ⟨name,
          hOwned.request i call name k ns hCall hAt hRequest,
          hReady⟩
  | release i call k stage server hCall hWorking hEnded hGrows =>
      rcases hOwned.holder i call k hCall hWorking with
        ⟨cell, hCell, _, hSet⟩
      have hRelease :
          { s with server := server }.release k =
            { s with server := server }.setCell k
              { cell with holder := none } := by
        simp only [State.release, hCell]
      rw [hRelease]
      refine Sure.move (Sure.setCell (hSure.grow hGrows) ?_)
        hEnded.backed
      intro hIsSet
      rw [hSet] at hIsSet
      cases hIsSet
  | quit i call stage hCall hNot hWorking hEnded =>
      exact hSure.move hEnded.backed
  | deleted i call name hCall hStage =>
      rw [nobody, State.deleter_eq hCall hStage] at hGuard
      cases hGuard
  | lost i call name text hCall hStage =>
      rw [nobody, State.deleter_eq hCall hStage] at hGuard
      cases hGuard
  | forget i call name hCall hStage =>
      exact absurd hStage (hSure.forget i call name hCall)
  | others server hGrows => exact hSure.grow hGrows
  | otherDeletes name => cases hGuard

/-
  Where nobody deletes collections, two stores that were both
  told of a namespace that it is there produce vectors of one
  dimension, which is the collection's, and all fields are
  indexed; whichever of them created it, and whatever else
  was done on the server meanwhile.
-/
theorem answers_agree
    {es : List Event} {i j : Nat} {call call' : Call}
    {ns : String}
    (hRun :
      ((machine dimension).restrict
        (fun s e => nobody s e = true)).Run .start es s)
    (hCall : s.calls i = some call)
    (hRequest : call.request = .ensure ns)
    (hOk : call.stage = .returned (.ok ()))
    (hCall' : s.calls j = some call')
    (hRequest' : call'.request = .ensure ns)
    (hOk' : call'.stage = .returned (.ok ())) :
    dimension call.store = dimension call'.store ∧
      ∃ name c, collectionName ns = .ok name ∧
        s.server name = some c ∧
          c.Fits (dimension call.store) := by
  have hBoth : Owned s ∧ Sure dimension s := by
    refine hRun.restrict_invariant
      (I := fun s => Owned s ∧ Sure dimension s) ?_ ?_
    · intro s e t hBoth hNext hGuard
      have hMove := State.next_eq_some hNext
      exact ⟨hBoth.1.step hMove,
        hBoth.2.step hBoth.1 hGuard hMove⟩
    · exact ⟨⟨nofun, nofun, nofun, nofun⟩,
        ⟨nofun, nofun, nofun, nofun⟩⟩
  rcases hBoth.2.answered i call ns hCall hRequest hOk with
    ⟨name, hName, c, hc, hFits⟩
  rcases hBoth.2.answered j call' ns hCall' hRequest' hOk' with
    ⟨name', hName', c', hc', hFits'⟩
  rw [hName] at hName'
  cases hName'
  rw [hc] at hc'
  cases hc'
  refine ⟨?_, name, c, hName, hc, hFits⟩
  rcases hFits.1 with ⟨vectors, hVectors, hDense⟩
  rcases hFits'.1 with ⟨vectors', hVectors', hDense'⟩
  rw [hVectors] at hVectors'
  cases hVectors'
  rw [hDense] at hDense'
  exact Option.some.inj hDense'

/- Two processes race, and the second one's creation fails. -/
theorem answers_agree_after_race :
    ∃ es s call call',
      ((machine (fun _ => 384)).restrict
        (fun s e => nobody s e = true)).Run .start es s ∧
      s.calls 0 = some call ∧ s.calls 1 = some call' ∧
      call.store ≠ call'.store ∧
      ∃ c, s.server "ferrex_n" = some c ∧ c.Fits 384 := by
  rcases Machine.Run.restrict_of_any
    (fun s => s = .start) State.start
    ([.call 0 0 (.ensure "n"), .call 1 1 (.ensure "n"),
      .entry 0 7, .entry 1 8, .acquire 0, .acquire 1,
      .reply 0 .ok, .reply 1 .ok, .reply 0 .ok,
      .reply 1 (.failed "collection already exists"),
      .reply 0 (.seen []), .reply 1 (.seen [])] ++
      (List.replicate indexedFields.length (.reply 0 .ok) ++
        List.replicate indexedFields.length (.reply 1 .ok)) ++
      [.settle 0, .settle 1])
    (fun s =>
      s.calls 0 = some
        ⟨0, .ensure "n", .returned (.ok ())⟩ ∧
      s.calls 1 = some ⟨1, .ensure "n", .returned (.ok ())⟩)
    (fun s e => (id : nobody s e = true → _))
    (show (List.foldlM (Machine.checked
      (State.next (fun _ => 384)) nobody) _ _).any _ = true
      from by decide +kernel)
    with ⟨s, hRun, hTest⟩
  rcases of_decide_eq_true hTest with ⟨hFirst, hSecond⟩
  rcases (answers_agree hRun hFirst rfl rfl hSecond rfl rfl).2
    with ⟨name, c, hName, hc, hFits⟩
  cases hName
  exact ⟨_, s, _, _, hRun, hFirst, hSecond, by decide, c, hc,
    hFits⟩

end Memo

end Ensure

end Store

end Ferrex
