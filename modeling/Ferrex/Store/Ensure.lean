import Mathlib.Data.List.Infix
import Ferrex.Lib.Transition
import Ferrex.Store.Vector

/-
  The collections of the namespaces, and what the vector
  stores of several processes remember of them.  A store
  checks a collection once: the first call creates it or
  validates it, the others wait for that and go by its
  outcome, while other processes and programs work on the
  same server.

  Main declarations:
    * `Collection`, `validateCollectionSchema`
    * `Cell`, `Stage`, `Call`, `State`
    * `State.next`, `machine`
    * `Move`, `State.next_eq_some`
-/

------------------------------------------------------------
-- Collections
------------------------------------------------------------

namespace Ferrex

namespace Store

namespace Ensure

/- The one vector of each point. -/
def denseVector : String := "dense"

/- The fields of the payload that are indexed. -/
def indexedFields : List String :=
  ["memory_type", "namespace", "entities", "point_type",
    "agent_id", "created_at"]

/-
  A collection as the server describes it: its named vectors
  with their sizes, unless it has a single vector, and the
  fields of its payload that are indexed.
-/
structure Collection where
  vectors : Option (List (String × Nat))
  indexed : List String
deriving DecidableEq

/- The collection that a store of a dimension creates. -/
def hybrid (dimension : Nat) : Collection where
  vectors := some [(denseVector, dimension)]
  indexed := []

/- `{:?}` of an optional size. -/
def debugSize : Option Nat → String
| none => "None"
| some n => "Some(" ++ toString n ++ ")"

/- `validate_collection_schema` on what the server tells. -/
def validateCollectionSchema
    (dimension : Nat)
    (name : String)
    (c : Collection) : Except StoreError Unit :=
  match c.vectors with
  | none =>
      .error (.qdrant ("collection " ++ name ++
        " uses an incompatible schema (single vector). " ++
        "Hybrid search requires named vectors " ++
        "(dense + sparse). " ++
        "Delete the collection or start with a fresh database."))
  | some vectors =>
      if vectors.lookup denseVector = some dimension then
        .ok ()
      else
        .error (.qdrant ("collection " ++ name ++
          " has dense dimension " ++
          debugSize (vectors.lookup denseVector) ++
          ", but the embedding model produces " ++
          toString dimension ++
          ". Use the original model or start with a fresh " ++
          "database."))

/- An error of `create_collection` that is none. -/
def saysExists (text : String) : Bool :=
  decide ("already exists".toList <:+: text.toList)

------------------------------------------------------------
-- Calls
------------------------------------------------------------

/-
  The once-cell of a name in the map of a store, the call
  that holds its permit, and whether it has been set.
-/
structure Cell where
  store : Nat
  name : String
  holder : Option Nat
  set : Bool
deriving DecidableEq

/- A call on a store. -/
inductive Request where
| ensure (ns : String)
| delete (name : String)
deriving DecidableEq

/-
  The next thing that a call does: the requests to the server
  that it sends, and what it does to the map and the cell.
-/
inductive Stage where
| entry
| waiting (name : String) (cell : Nat)
| exists (name : String) (cell : Nat)
| create (name : String) (cell : Nat)
| info (name : String) (cell : Nat)
| index (name : String) (cell : Nat) (rest : List String)
| delete (name : String)
| forget (name : String)
| returned (result : Except StoreError Unit)
| dropped
deriving DecidableEq

/- A call, its store and its stage. -/
structure Call where
  store : Nat
  request : Request
  stage : Stage
deriving DecidableEq

/- The cell whose permit a call holds. -/
def Stage.working : Stage → Option Nat
| .exists _ cell => some cell
| .create _ cell => some cell
| .info _ cell => some cell
| .index _ cell _ => some cell
| _ => none

/- The name that a call is about, and the cell it goes by. -/
def Stage.at : Stage → Option (String × Nat)
| .waiting name cell => some (name, cell)
| .exists name cell => some (name, cell)
| .create name cell => some (name, cell)
| .info name cell => some (name, cell)
| .index name cell _ => some (name, cell)
| _ => none

/- The server, and the maps and the calls of the stores. -/
structure State where
  server : String → Option Collection
  ensured : Nat → String → Option Nat
  cells : Nat → Option Cell
  calls : Nat → Option Call

/- No collections and no calls. -/
def State.start : State where
  server := fun _ => none
  ensured := fun _ _ => none
  cells := fun _ => none
  calls := fun _ => none

------------------------------------------------------------
-- Steps
------------------------------------------------------------

/- What comes back for a request, if it has been served. -/
inductive Reply where
| ok
| failed (text : String)
| lost (text : String)
| empty
| seen (fields : List String)

/-
  Calls come, go on and are dropped; the others are programs
  and processes that use the same server.
-/
inductive Event where
| call (i store : Nat) (request : Request)
| entry (i fresh : Nat)
| acquire (i : Nat)
| reply (i : Nat) (reply : Reply)
| settle (i : Nat)
| forget (i : Nat)
| drop (i : Nat)
| otherCreates (name : String) (c : Collection)
| otherIndexes (name field : String)
| otherDeletes (name : String)

namespace State

/- A call has come to another stage. -/
def move
    (s : State)
    (i : Nat)
    (call : Call)
    (stage : Stage) : State :=
  { s with
    calls := Function.update s.calls i
      (some { call with stage := stage }) }

/- A cell has changed. -/
def setCell (s : State) (k : Nat) (cell : Cell) : State :=
  { s with cells := Function.update s.cells k (some cell) }

/- A collection has changed on the server. -/
def setCollection
    (s : State)
    (name : String)
    (c : Option Collection) : State :=
  { s with server := Function.update s.server name c }

/- The store's memo for a collection. -/
def remember
    (s : State)
    (store : Nat)
    (name : String)
    (k : Option Nat) : State :=
  { s with
    ensured := Function.update s.ensured store
      (Function.update (s.ensured store) name k) }

/- The permit of a cell is given back. -/
def release (s : State) (k : Nat) : State :=
  match s.cells k with
  | none => s
  | some cell => s.setCell k { cell with holder := none }

/- A call ends with an error, and gives its permit back. -/
def fail
    (s : State)
    (i : Nat)
    (call : Call)
    (k : Nat)
    (text : StoreError) : State :=
  (s.release k).move i call (.returned (.error text))

/- The server creates a collection that it does not have. -/
def createCollection
    (s : State)
    (name : String)
    (c : Collection) : State :=
  if (s.server name).isNone then
    s.setCollection name (some c)
  else
    s

/- The index is added if the collection is there. -/
def createFieldIndex
    (s : State)
    (name field : String) : State :=
  match s.server name with
  | none => s
  | some c =>
      s.setCollection name
        (some { c with indexed := field :: c.indexed })

/- `or_default` on the entry of a name. -/
def enter
    (s : State)
    (i : Nat)
    (call : Call)
    (name : String)
    (fresh : Nat) : Option State :=
  match s.ensured call.store name with
  | some k => some (s.move i call (.waiting name k))
  | none =>
      if (s.cells fresh).isNone then
        some (((s.setCell fresh
          ⟨call.store, name, none, false⟩).remember call.store
            name (some fresh)).move i call (.waiting name fresh))
      else
        none

/- What a call does with the reply to its request. -/
def answer
    (dimension : Nat → Nat)
    (s : State)
    (i : Nat)
    (call : Call)
    (reply : Reply) : Option State :=
  match call.stage, reply with
  | .exists name k, .ok =>
      if (s.server name).isSome then
        some (s.move i call (.info name k))
      else
        some (s.move i call (.create name k))
  | .exists _ k, .failed text =>
      some (s.fail i call k (.qdrant text))
  | .create name k, .ok =>
      if (s.server name).isNone then
        some ((s.createCollection name
          (hybrid (dimension call.store))).move i call
            (.info name k))
      else
        none
  | .create name k, .failed text =>
      if saysExists text then
        some (s.move i call (.info name k))
      else
        some (s.fail i call k (.qdrant text))
  | .create name k, .lost text =>
      let s := s.createCollection name
        (hybrid (dimension call.store))
      if saysExists text then
        some (s.move i call (.info name k))
      else
        some (s.fail i call k (.qdrant text))
  | .info _ k, .failed text =>
      some (s.fail i call k (.qdrant text))
  | .info name k, .empty =>
      some (s.fail i call k (.qdrant ("collection " ++ name ++
        " returned no info")))
  | .info name k, .seen fields =>
      match s.server name with
      | none => none
      | some c =>
          if fields.all (fun f => c.indexed.contains f) then
            match validateCollectionSchema
                (dimension call.store) name c with
            | .error e => some (s.fail i call k e)
            | .ok () =>
                some (s.move i call (.index name k
                  (indexedFields.filter
                    (fun f => !fields.contains f))))
          else
            none
  | .index name k (field :: rest), .ok =>
      if (s.server name).isSome then
        some ((s.createFieldIndex name field).move i call
          (.index name k rest))
      else
        none
  | .index _ k (_ :: _), .failed text =>
      some (s.fail i call k (.qdrant text))
  | .index name k (field :: _), .lost text =>
      some ((s.createFieldIndex name field).fail i call k
        (.qdrant text))
  | .delete name, .ok =>
      some ((s.setCollection name none).move i call
        (.forget name))
  | .delete _, .failed text =>
      some (s.move i call (.returned (.error (.qdrant text))))
  | .delete name, .lost text =>
      some ((s.setCollection name none).move i call
        (.returned (.error (.qdrant text))))
  | _, _ => none

/-
  One event: a call begins, a stage is passed, or the server
  answers.
-/
def next
    (dimension : Nat → Nat)
    (s : State) : Event → Option State
| .call i store request =>
    if (s.calls i).isNone then
      some { s with
        calls := Function.update s.calls i (some
          ⟨store, request,
            match request with
            | .ensure _ => .entry
            | .delete name => .delete name⟩) }
    else
      none
| .entry i fresh =>
    match s.calls i with
    | some ⟨store, .ensure ns, .entry⟩ =>
        match collectionName ns with
        | .error e =>
            some (s.move i ⟨store, .ensure ns, .entry⟩
              (.returned (.error e)))
        | .ok name =>
            s.enter i ⟨store, .ensure ns, .entry⟩ name fresh
    | _ => none
| .acquire i =>
    match s.calls i with
    | some ⟨store, request, .waiting name k⟩ =>
        match s.cells k with
        | none => none
        | some cell =>
            if cell.set then
              some (s.move i ⟨store, request, .waiting name k⟩
                (.returned (.ok ())))
            else if cell.holder.isNone then
              some ((s.setCell k
                { cell with holder := some i }).move i
                  ⟨store, request, .waiting name k⟩
                  (.exists name k))
            else
              none
    | _ => none
| .reply i reply =>
    match s.calls i with
    | some call => s.answer dimension i call reply
    | none => none
| .settle i =>
    match s.calls i with
    | some ⟨store, request, .index name k []⟩ =>
        match s.cells k with
        | none => none
        | some cell =>
            some ((s.setCell k
              { cell with holder := none, set := true }).move i
                ⟨store, request, .index name k []⟩
                (.returned (.ok ())))
    | _ => none
| .forget i =>
    match s.calls i with
    | some ⟨store, request, .forget name⟩ =>
        some ((s.remember store name none).move i
          ⟨store, request, .forget name⟩ (.returned (.ok ())))
    | _ => none
| .drop i =>
    match s.calls i with
    | some call =>
        -- A call does not wait between its deletion and the map.
        match call.stage with
        | .returned _ => none
        | .forget _ => none
        | _ =>
            match call.stage.working with
            | none => some (s.move i call .dropped)
            | some k => some ((s.release k).move i call .dropped)
    | none => none
| .otherCreates name c => some (s.createCollection name c)
| .otherIndexes name field => some (s.createFieldIndex name field)
| .otherDeletes name => some (s.setCollection name none)

end State

/- Calls of any number of stores, in any order. -/
def machine (dimension : Nat → Nat) : Machine State Event :=
  .ofNext (fun s => s = .start) (State.next dimension)

------------------------------------------------------------
-- Moves
------------------------------------------------------------

/- Nothing that the server has is lost or laid out anew. -/
def Grows (server server' : String → Option Collection) : Prop :=
  ∀ name c, server name = some c →
    ∃ c', server' name = some c' ∧ c'.vectors = c.vectors ∧
      c.indexed ⊆ c'.indexed

/- A server has grown by nothing. -/
theorem Grows.refl (server : String → Option Collection) :
    Grows server server :=
  fun _ c h => ⟨c, h, rfl, List.Subset.refl _⟩

/- The call has returned. -/
def Stage.Ended (stage : Stage) : Prop :=
  (∃ e, stage = .returned (.error e)) ∨ stage = .dropped

/-
  The ways in which the stores and the server go on.  Only
  deletions are told apart by their events.
-/
inductive Move
    (dimension : Nat → Nat)
    (s : State) : Event → State → Prop
| call (i store : Nat) (request : Request) (stage : Stage)
    (hFree : s.calls i = none)
    (hStage : stage = .entry ∨ ∃ name, stage = .delete name) :
    Move dimension s (.call i store request) { s with
      calls := Function.update s.calls i
        (some ⟨store, request, stage⟩) }
| known {e : Event} (i : Nat) (call : Call) (ns name : String)
    (k : Nat)
    (hCall : s.calls i = some call)
    (hStage : call.stage = .entry)
    (hRequest : call.request = .ensure ns)
    (hName : collectionName ns = .ok name)
    (hMemo : s.ensured call.store name = some k) :
    Move dimension s e (s.move i call (.waiting name k))
| fresh {e : Event} (i : Nat) (call : Call) (ns name : String)
    (k : Nat)
    (hCall : s.calls i = some call)
    (hStage : call.stage = .entry)
    (hRequest : call.request = .ensure ns)
    (hName : collectionName ns = .ok name)
    (hMemo : s.ensured call.store name = none)
    (hFresh : s.cells k = none) :
    Move dimension s e (((s.setCell k
      ⟨call.store, name, none, false⟩).remember call.store name
        (some k)).move i call (.waiting name k))
| hit {e : Event} (i : Nat) (call : Call) (name : String)
    (k : Nat) (cell : Cell)
    (hCall : s.calls i = some call)
    (hStage : call.stage = .waiting name k)
    (hCell : s.cells k = some cell)
    (hSet : cell.set = true) :
    Move dimension s e (s.move i call (.returned (.ok ())))
| take {e : Event} (i : Nat) (call : Call) (name : String)
    (k : Nat) (cell : Cell)
    (hCall : s.calls i = some call)
    (hStage : call.stage = .waiting name k)
    (hCell : s.cells k = some cell)
    (hSet : cell.set = false)
    (hHolder : cell.holder = none) :
    Move dimension s e ((s.setCell k
      { cell with holder := some i }).move i call
        (.exists name k))
| advance {e : Event} (i : Nat) (call : Call) (name : String)
    (k : Nat) (stage : Stage)
    (server : String → Option Collection)
    (hCall : s.calls i = some call)
    (hAt : call.stage.at = some (name, k))
    (hWorking : call.stage.working = some k)
    (hStage : stage = .create name k ∨ stage = .info name k)
    (hGrows : Grows s.server server) :
    Move dimension s e
      ({ s with server := server }.move i call stage)
| listed {e : Event} (i : Nat) (call : Call) (name : String)
    (k : Nat) (fields : List String) (c : Collection)
    (hCall : s.calls i = some call)
    (hStage : call.stage = .info name k)
    (hServer : s.server name = some c)
    (hFields : ∀ f ∈ fields, f ∈ c.indexed)
    (hValid :
      validateCollectionSchema (dimension call.store) name c =
        .ok ()) :
    Move dimension s e (s.move i call (.index name k
      (indexedFields.filter (fun f => !fields.contains f))))
| indexed {e : Event} (i : Nat) (call : Call) (name : String)
    (k : Nat) (field : String) (rest : List String)
    (c : Collection)
    (hCall : s.calls i = some call)
    (hStage : call.stage = .index name k (field :: rest))
    (hServer : s.server name = some c) :
    Move dimension s e ((s.setCollection name (some
      { c with indexed := field :: c.indexed })).move i call
        (.index name k rest))
| settle {e : Event} (i : Nat) (call : Call) (name : String)
    (k : Nat) (cell : Cell)
    (hCall : s.calls i = some call)
    (hStage : call.stage = .index name k [])
    (hCell : s.cells k = some cell) :
    Move dimension s e ((s.setCell k
      { cell with holder := none, set := true }).move i call
        (.returned (.ok ())))
| release {e : Event} (i : Nat) (call : Call) (k : Nat)
    (stage : Stage) (server : String → Option Collection)
    (hCall : s.calls i = some call)
    (hWorking : call.stage.working = some k)
    (hEnded : stage.Ended)
    (hGrows : Grows s.server server) :
    Move dimension s e
      (({ s with server := server }.release k).move i call stage)
| quit {e : Event} (i : Nat) (call : Call) (stage : Stage)
    (hCall : s.calls i = some call)
    (hNot : ∀ name, call.stage ≠ .forget name)
    (hWorking : call.stage.working = none)
    (hEnded : stage.Ended) :
    Move dimension s e (s.move i call stage)
| deleted (i : Nat) (call : Call) (name : String)
    (hCall : s.calls i = some call)
    (hStage : call.stage = .delete name) :
    Move dimension s (.reply i .ok)
      ((s.setCollection name none).move i call (.forget name))
| lost (i : Nat) (call : Call) (name text : String)
    (hCall : s.calls i = some call)
    (hStage : call.stage = .delete name) :
    Move dimension s (.reply i (.lost text))
      ((s.setCollection name none).move i call
        (.returned (.error (.qdrant text))))
| forget {e : Event} (i : Nat) (call : Call) (name : String)
    (hCall : s.calls i = some call)
    (hStage : call.stage = .forget name) :
    Move dimension s e ((s.remember call.store name none).move i
      call (.returned (.ok ())))
| others {e : Event} (server : String → Option Collection)
    (hGrows : Grows s.server server) :
    Move dimension s e { s with server := server }
| otherDeletes (name : String) :
    Move dimension s (.otherDeletes name)
      (s.setCollection name none)

namespace State

variable {dimension : Nat → Nat} {s t : State} {e : Event}

/- A creation grows the server. -/
theorem createCollection_eq
    (s : State)
    (name : String)
    (c : Collection) :
    ∃ server, Grows s.server server ∧
      s.createCollection name c = { s with server := server } := by
  rw [createCollection]
  split
  · rename_i hNone
    refine ⟨_, ?_, rfl⟩
    intro other d hOther
    refine ⟨d, ?_, rfl, List.Subset.refl _⟩
    have hNe : other ≠ name := by
      rintro rfl
      rw [hOther] at hNone
      cases hNone
    rw [Function.update_of_ne hNe, hOther]
  · exact ⟨_, .refl _, rfl⟩

/- An index grows a collection. -/
theorem grows_index
    {name : String} {c : Collection}
    (field : String)
    (h : s.server name = some c) :
    Grows s.server
      (s.setCollection name
        (some { c with indexed := field :: c.indexed })).server := by
  intro other d hOther
  by_cases hEq : other = name
  · subst hEq
    rw [h] at hOther
    cases hOther
    exact ⟨{ c with indexed := field :: c.indexed },
      Function.update_self .., rfl,
      List.subset_cons_self _ _⟩
  · refine ⟨d, ?_, rfl, List.Subset.refl _⟩
    simp only [setCollection]
    rw [Function.update_of_ne hEq, hOther]

/-
  An index for a field grows it, or there is no collection.
-/
theorem createFieldIndex_eq
    (s : State)
    (name field : String) :
    ∃ server, Grows s.server server ∧
      s.createFieldIndex name field =
        { s with server := server } := by
  rw [createFieldIndex]
  split
  · exact ⟨_, .refl _, rfl⟩
  · rename_i c hSome
    exact ⟨_, grows_index field hSome, rfl⟩

/- The server's answer is one of the moves. -/
private theorem move_of_answer
    {i : Nat} {call : Call} {reply : Reply}
    (hCall : s.calls i = some call)
    (h : s.answer dimension i call reply = some t) :
    Move dimension s (.reply i reply) t := by
  have hFail :
      ∀ k e server, call.stage.working = some k →
        Grows s.server server →
          Move dimension s (.reply i reply)
            ({ s with server := server }.fail i call k e) := by
    intro k e server hWorking hGrows
    exact .release i call k _ server hCall hWorking
      (.inl ⟨e, rfl⟩) hGrows
  have hSame :
      ∀ k e, call.stage.working = some k →
        Move dimension s (.reply i reply) (s.fail i call k e) :=
    fun k e hWorking => hFail k e s.server hWorking (.refl _)
  have hNext :
      ∀ name k stage, call.stage.at = some (name, k) →
        call.stage.working = some k →
          (stage = .create name k ∨ stage = .info name k) →
            Move dimension s (.reply i reply)
              (s.move i call stage) := by
    intro name k stage hAt hWorking hStage
    exact .advance i call name k stage s.server hCall hAt
      hWorking hStage (.refl _)
  simp only [answer] at h
  split at h
  · rename_i name k hStage
    split at h <;> cases h
    · exact hNext name k _ (by rw [hStage]; rfl)
        (by rw [hStage]; rfl) (.inr rfl)
    · exact hNext name k _ (by rw [hStage]; rfl)
        (by rw [hStage]; rfl) (.inl rfl)
  · rename_i hStage
    cases h
    exact hSame _ _ (by rw [hStage]; rfl)
  · rename_i name k hStage
    split at h <;> cases h
    rcases s.createCollection_eq name
      (hybrid (dimension call.store)) with ⟨server, hGrows, hEq⟩
    rw [hEq]
    exact .advance i call name k _ server hCall
      (by rw [hStage]; rfl) (by rw [hStage]; rfl) (.inr rfl)
      hGrows
  · rename_i name k text hStage
    split at h <;> cases h
    · exact hNext name k _ (by rw [hStage]; rfl)
        (by rw [hStage]; rfl) (.inr rfl)
    · exact hSame _ _ (by rw [hStage]; rfl)
  · rename_i name k text hStage
    rcases s.createCollection_eq name
      (hybrid (dimension call.store)) with ⟨server, hGrows, hEq⟩
    simp only [hEq] at h
    split at h <;> cases h
    · exact .advance i call name k _ server hCall
        (by rw [hStage]; rfl) (by rw [hStage]; rfl) (.inr rfl)
        hGrows
    · exact hFail k _ server (by rw [hStage]; rfl) hGrows
  · rename_i hStage
    cases h
    exact hSame _ _ (by rw [hStage]; rfl)
  · rename_i hStage
    cases h
    exact hSame _ _ (by rw [hStage]; rfl)
  · rename_i name k fields hStage
    split at h
    · cases h
    · rename_i c hServer
      split at h
      · rename_i hFields
        split at h
        · cases h
          exact hSame _ _ (by rw [hStage]; rfl)
        · rename_i hValid
          cases h
          refine .listed i call name k fields c hCall hStage
            hServer ?_ hValid
          simpa using hFields
      · cases h
  · rename_i name k field rest hStage
    split at h
    · rename_i hSome
      rcases Option.isSome_iff_exists.mp hSome with ⟨c, hServer⟩
      simp only [createFieldIndex, hServer] at h
      cases h
      exact .indexed i call name k field rest c hCall hStage
        hServer
    · cases h
  · rename_i hStage
    cases h
    exact hSame _ _ (by rw [hStage]; rfl)
  · rename_i name k field rest text hStage
    cases h
    rcases s.createFieldIndex_eq name field with
      ⟨server, hGrows, hEq⟩
    rw [hEq]
    exact hFail k _ server (by rw [hStage]; rfl) hGrows
  · rename_i name hStage
    cases h
    exact .deleted i call name hCall hStage
  · rename_i hStage
    cases h
    exact .quit i call _ hCall (by rw [hStage]; nofun)
      (by rw [hStage]; rfl) (.inl ⟨_, rfl⟩)
  · rename_i name text hStage
    cases h
    exact .lost i call name text hCall hStage
  · cases h

/- Every event is one of the moves. -/
theorem next_eq_some
    (h : s.next dimension e = some t) :
    Move dimension s e t := by
  cases e with
  | call i store request =>
      simp only [next] at h
      split at h
      · rename_i hFree
        cases h
        refine .call i store request _
          (Option.isNone_iff_eq_none.mp hFree) ?_
        cases request with
        | ensure ns => exact .inl rfl
        | delete name => exact .inr ⟨name, rfl⟩
      · cases h
  | entry i fresh =>
      simp only [next] at h
      split at h
      · rename_i store ns hCall
        split at h
        · cases h
          exact .quit i _ _ hCall nofun rfl (.inl ⟨_, rfl⟩)
        · rename_i name hName
          simp only [enter] at h
          split at h
          · rename_i k hMemo
            cases h
            exact .known i _ ns name k hCall rfl rfl hName hMemo
          · rename_i hMemo
            split at h
            · rename_i hFresh
              cases h
              exact .fresh i _ ns name fresh hCall rfl rfl
                hName hMemo (Option.isNone_iff_eq_none.mp hFresh)
            · cases h
      · cases h
  | acquire i =>
      simp only [next] at h
      split at h
      · rename_i store request name k hCall
        split at h
        · cases h
        · rename_i cell hCell
          split at h
          · rename_i hSet
            cases h
            exact .hit i _ name k cell hCall rfl hCell hSet
          · rename_i hSet
            split at h
            · rename_i hHolder
              cases h
              exact .take i _ name k cell hCall rfl hCell
                (Bool.not_eq_true _ ▸ hSet)
                (Option.isNone_iff_eq_none.mp hHolder)
            · cases h
      · cases h
  | reply i reply =>
      simp only [next] at h
      split at h
      · rename_i call hCall
        exact move_of_answer hCall h
      · cases h
  | settle i =>
      simp only [next] at h
      split at h
      · rename_i store request name k hCall
        split at h
        · cases h
        · rename_i cell hCell
          cases h
          exact .settle i _ name k cell hCall rfl hCell
      · cases h
  | forget i =>
      simp only [next] at h
      split at h
      · rename_i store request name hCall
        cases h
        exact .forget i _ name hCall rfl
      · cases h
  | drop i =>
      simp only [next] at h
      split at h
      · rename_i call hCall
        split at h
        · cases h
        · cases h
        · rename_i hNot
          split at h
          · rename_i hWorking
            cases h
            exact .quit i call _ hCall hNot hWorking (.inr rfl)
          · rename_i k hWorking
            cases h
            exact .release i call k _ s.server hCall hWorking
              (.inr rfl) (.refl _)
      · cases h
  | otherCreates name c =>
      cases h
      rcases s.createCollection_eq name c with
        ⟨server, hGrows, hEq⟩
      rw [hEq]
      exact .others server hGrows
  | otherIndexes name field =>
      cases h
      rcases s.createFieldIndex_eq name field with
        ⟨server, hGrows, hEq⟩
      rw [hEq]
      exact .others server hGrows
  | otherDeletes name =>
      cases h
      exact .otherDeletes name

end State

end Ensure

end Store

end Ferrex
