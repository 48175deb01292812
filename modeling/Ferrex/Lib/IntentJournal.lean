import Mathlib.Data.Set.Insert
import Mathlib.Logic.Function.Basic
import Ferrex.Lib.Transition

/-
  Dual writes under an intent journal: workers add keys to
  and remove keys from two stores, one after the other, and
  log each intent before they touch the first store.  The
  entry is marked once the first store has been reached, and
  dropped together with the write to the second store.  After
  a crash the journal is worked off before work goes on.

  Main declarations:
    * `IntentJournal.Step`
    * `IntentJournal.Inv` and `IntentJournal.Step.inv`
    * `IntentJournal.Gone` and `IntentJournal.Step.gone`
    * `IntentJournal.Step.seen`
    * `IntentJournal.Step.pointsCovered`
    * `IntentJournal.Step.rowsCovered`
    * `IntentJournal.Step.addsOwned`
    * `IntentJournal.row_or_adding`
    * `IntentJournal.points_eq_rows`
-/

------------------------------------------------------------
-- Entries, Workers and States
------------------------------------------------------------

namespace IntentJournal

inductive Kind where
| add
| remove
deriving DecidableEq

/-
  A journal entry.  `reached` says that the first store
  (`points`) has been written.
-/
structure Entry (Key Op : Type) where
  op : Op
  kind : Kind
  key : Key
  reached : Bool

/- The entry once its mark is set. -/
def Entry.reach
    {Key Op : Type}
    (e : Entry Key Op) : Entry Key Op :=
  { e with reached := true }

/- How far a worker is with its key. -/
inductive Worker (Key Op : Type) where
| idle
| chosen (kind : Kind) (key : Key)
| logged (e : Entry Key Op)
| written (e : Entry Key Op)
| marked (e : Entry Key Op)
| deleted (e : Entry Key Op)

/-
  How far the work on the journal is after a crash: between
  two entries, past the first store for one entry, or past
  both stores for it.
-/
inductive Mode (Key Op : Type) where
| up
| down
| pointUndone (e : Entry Key Op)
| undone (e : Entry Key Op)

/-
  The two stores, the journal and the workers.  `committed`
  remembers every key that was ever a row and `named` every
  key whose removal was asked for.
-/
@[ext] structure State (Key Op : Type) where
  rows : Set Key
  points : Set Key
  journal : Set (Entry Key Op)
  workers : Nat → Worker Key Op
  mode : Mode Key Op
  committed : Set Key
  named : Set Key

namespace Worker

variable {Key Op : Type}

/- What a worker is about: its kind of write and its key. -/
def task : Worker Key Op → Option (Kind × Key)
| .idle => none
| .chosen kind k => some (kind, k)
| .logged e => some (e.kind, e.key)
| .written e => some (e.kind, e.key)
| .marked e => some (e.kind, e.key)
| .deleted e => some (e.kind, e.key)

/- The worker's entry as the journal holds it. -/
def entry : Worker Key Op → Option (Entry Key Op)
| .idle => none
| .chosen _ _ => none
| .logged e => some e
| .written e => some e
| .marked e => some e.reach
| .deleted e => some e.reach

end Worker

------------------------------------------------------------
-- Steps
------------------------------------------------------------

variable {Key Id Op : Type}

/- The journal with the entry of an op marked. -/
def markEntry
    (o : Op)
    (journal : Set (Entry Key Op)) :
    Set (Entry Key Op) :=
  { x | (x ∈ journal ∧ x.op ≠ o) ∨
    ∃ y ∈ journal, y.op = o ∧ x = y.reach }

/- The journal without the entry of an op. -/
def clearEntry
    (o : Op)
    (journal : Set (Entry Key Op)) :
    Set (Entry Key Op) :=
  { x | x ∈ journal ∧ x.op ≠ o }

/- The rows left when those with an identifier go. -/
def deleteRows
    (ident : Key → Id)
    (k : Key)
    (rows : Set Key) : Set Key :=
  { x | x ∈ rows ∧ ident x ≠ ident k }

/-
  A key whose identifier nobody uses: not as a row, past or
  present, nor in the journal, nor in an addition under way.
-/
structure Fresh
    (ident : Key → Id)
    (s : State Key Op)
    (k : Key) : Prop where
  committed : ∀ x ∈ s.committed, ident x ≠ ident k
  journal : ∀ e ∈ s.journal, ident e.key ≠ ident k
  workers :
    ∀ i x, (s.workers i).task = some (.add, x) →
      ident x ≠ ident k

/-
  One step of a worker, a crash, or one step of the work on
  the journal afterwards.  Rows are deleted by identifier,
  points by key.
-/
inductive Step (ident : Key → Id) :
    State Key Op → State Key Op → Prop
| name {s : State Key Op} (keys : Set Key) :
    Step ident s { s with named := s.named ∪ keys }
| chooseAdd {s : State Key Op} {i : Nat} {k : Key}
    (hMode : s.mode = .up)
    (hIdle : s.workers i = .idle)
    (hFresh : Fresh ident s k) :
    Step ident s { s with
      workers :=
        Function.update s.workers i (.chosen .add k) }
| chooseRemove {s : State Key Op} {i : Nat} {k : Key}
    (hMode : s.mode = .up)
    (hIdle : s.workers i = .idle)
    (hRow : k ∈ s.rows)
    (hNamed : k ∈ s.named) :
    Step ident s { s with
      workers :=
        Function.update s.workers i (.chosen .remove k) }
| log {s : State Key Op} {i : Nat} {kind : Kind}
    {k : Key} {o : Op}
    (hMode : s.mode = .up)
    (hWorker : s.workers i = .chosen kind k)
    (hFresh : ∀ e ∈ s.journal, e.op ≠ o) :
    Step ident s { s with
      journal := s.journal ∪ {⟨o, kind, k, false⟩}
      workers :=
        Function.update s.workers i
          (.logged ⟨o, kind, k, false⟩) }
| writeAdd {s : State Key Op} {i : Nat} {e : Entry Key Op}
    (hMode : s.mode = .up)
    (hWorker : s.workers i = .logged e)
    (hKind : e.kind = .add) :
    Step ident s { s with
      points := s.points ∪ {e.key}
      workers := Function.update s.workers i (.written e) }
| writeRemove {s : State Key Op} {i : Nat}
    {e : Entry Key Op}
    (hMode : s.mode = .up)
    (hWorker : s.workers i = .logged e)
    (hKind : e.kind = .remove) :
    Step ident s { s with
      points := s.points \ {e.key}
      workers := Function.update s.workers i (.written e) }
| mark {s : State Key Op} {i : Nat} {e : Entry Key Op}
    (hMode : s.mode = .up)
    (hWorker : s.workers i = .written e) :
    Step ident s { s with
      journal := markEntry e.op s.journal
      workers := Function.update s.workers i (.marked e) }
| commit {s : State Key Op} {i : Nat} {e : Entry Key Op}
    (hMode : s.mode = .up)
    (hWorker : s.workers i = .marked e)
    (hKind : e.kind = .add) :
    Step ident s { s with
      rows := s.rows ∪ {e.key}
      committed := s.committed ∪ {e.key}
      journal := clearEntry e.op s.journal
      workers := Function.update s.workers i .idle }
| deleteRow {s : State Key Op} {i : Nat} {e : Entry Key Op}
    (hMode : s.mode = .up)
    (hWorker : s.workers i = .marked e)
    (hKind : e.kind = .remove) :
    Step ident s { s with
      rows := deleteRows ident e.key s.rows
      workers := Function.update s.workers i (.deleted e) }
| complete {s : State Key Op} {i : Nat} {e : Entry Key Op}
    (hMode : s.mode = .up)
    (hWorker : s.workers i = .deleted e) :
    Step ident s { s with
      journal := clearEntry e.op s.journal
      workers := Function.update s.workers i .idle }
| stop {s : State Key Op} {i : Nat}
    (hMode : s.mode = .up) :
    Step ident s { s with
      workers := Function.update s.workers i .idle }
| crash {s : State Key Op} :
    Step ident s { s with
      workers := fun _ => .idle
      mode := .down }
| skip {s : State Key Op} {e : Entry Key Op}
    (hMode : s.mode = .down)
    (hEntry : e ∈ s.journal)
    (hReached : e.reached = false) :
    Step ident s { s with mode := .undone e }
| undoPoint {s : State Key Op} {e : Entry Key Op}
    (hMode : s.mode = .down)
    (hEntry : e ∈ s.journal)
    (hReached : e.reached = true)
    (hKind : e.kind = .add) :
    Step ident s { s with
      points := s.points \ {e.key}
      mode := .pointUndone e }
| undoRow {s : State Key Op} {e : Entry Key Op}
    (hMode : s.mode = .pointUndone e ∨
      (s.mode = .down ∧ e ∈ s.journal ∧
        e.reached = true ∧ e.kind = .remove)) :
    Step ident s { s with
      rows := deleteRows ident e.key s.rows
      mode := .undone e }
| clear {s : State Key Op} {e : Entry Key Op}
    (hMode : s.mode = .undone e) :
    Step ident s { s with
      journal := clearEntry e.op s.journal
      mode := .down }
| recovered {s : State Key Op}
    (hMode : s.mode = .down)
    (hJournal : s.journal = ∅) :
    Step ident s { s with mode := .up }

------------------------------------------------------------
-- Journal and Row Membership
------------------------------------------------------------

@[simp, grind =] theorem mem_markEntry_iff
    {o : Op} {journal : Set (Entry Key Op)}
    {x : Entry Key Op} :
    x ∈ markEntry o journal ↔
      (x ∈ journal ∧ x.op ≠ o) ∨
        ∃ y ∈ journal, y.op = o ∧ x = y.reach :=
  Iff.rfl

@[simp, grind =] theorem mem_clearEntry_iff
    {o : Op} {journal : Set (Entry Key Op)}
    {x : Entry Key Op} :
    x ∈ clearEntry o journal ↔ x ∈ journal ∧ x.op ≠ o :=
  Iff.rfl

@[simp, grind =] theorem mem_deleteRows_iff
    {ident : Key → Id} {k x : Key} {rows : Set Key} :
    x ∈ deleteRows ident k rows ↔
      x ∈ rows ∧ ident x ≠ ident k :=
  Iff.rfl

attribute [local grind =] Function.update_apply
attribute [local grind] Worker.task Worker.entry Entry.reach

------------------------------------------------------------
-- Invariant
------------------------------------------------------------

/-
  What every step preserves, whatever stops or crashes: the
  keys of additions are fresh until they commit, removals
  work on committed keys, each worker's entry is in the
  journal under its own op, and a marked entry tells the
  truth about the first store.
-/
structure Inv
    (ident : Key → Id)
    (s : State Key Op) : Prop where
  rows_committed : ∀ k ∈ s.rows, k ∈ s.committed
  committed_injective :
    ∀ k ∈ s.committed, ∀ x ∈ s.committed,
      ident k = ident x → k = x
  kept : ∀ k ∈ s.committed, k ∈ s.rows ∨ k ∈ s.named
  adds_fresh :
    ∀ i k, (s.workers i).task = some (.add, k) →
      ∀ x ∈ s.committed, ident x ≠ ident k
  adds_distinct :
    ∀ i j k x, (s.workers i).task = some (.add, k) →
      (s.workers j).task = some (.add, x) →
        ident k = ident x → i = j
  removes_named :
    ∀ i k, (s.workers i).task = some (.remove, k) →
      k ∈ s.committed ∧ k ∈ s.named
  entry_mem :
    ∀ i e, (s.workers i).entry = some e → e ∈ s.journal
  entry_distinct :
    ∀ i j e x, (s.workers i).entry = some e →
      (s.workers j).entry = some x →
        e.op = x.op → i = j
  op_unique :
    ∀ e ∈ s.journal, ∀ x ∈ s.journal,
      e.op = x.op → e = x
  add_entry_fresh :
    ∀ e ∈ s.journal, e.kind = .add →
      ∀ x ∈ s.committed, ident x ≠ ident e.key
  add_entry_unique :
    ∀ e ∈ s.journal, ∀ x ∈ s.journal,
      e.kind = .add → x.kind = .add →
        ident e.key = ident x.key → e = x
  chosen_unlogged :
    ∀ i k, s.workers i = .chosen .add k →
      ∀ e ∈ s.journal, e.kind = .add →
        ident e.key ≠ ident k
  remove_entry :
    ∀ e ∈ s.journal, e.kind = .remove →
      e.key ∈ s.committed ∧ e.key ∈ s.named
  down_idle : s.mode ≠ .up → ∀ i, s.workers i = .idle
  added_point :
    ∀ i e,
      s.workers i = .written e ∨ s.workers i = .marked e →
        e.kind = .add → e.key ∈ s.points
  removed_point :
    ∀ i e,
      s.workers i = .written e ∨ s.workers i = .marked e →
        e.kind = .remove → e.key ∉ s.points
  remove_entry_point :
    ∀ e ∈ s.journal, e.kind = .remove →
      e.reached = true → e.key ∉ s.points
  deleted_row :
    ∀ i e, s.workers i = .deleted e →
      e.kind = .remove ∧ e.key ∉ s.rows
  undoing_mem :
    ∀ e, s.mode = .pointUndone e →
      e ∈ s.journal ∧ e.kind = .add ∧
        e.reached = true ∧ e.key ∉ s.points
  undone_mem :
    ∀ e, s.mode = .undone e →
      e ∈ s.journal ∧
        (e.reached = true →
          (e.kind = .add → e.key ∉ s.points) ∧
            (e.kind = .remove → e.key ∉ s.rows))

variable {ident : Key → Id} {s t : State Key Op}

/- Nothing written, nothing running, nothing to recover. -/
theorem Inv.initial
    (hRows : s.rows = s.committed)
    (hInjective :
      ∀ k ∈ s.committed, ∀ x ∈ s.committed,
        ident k = ident x → k = x)
    (hJournal : s.journal = ∅)
    (hWorkers : ∀ i, s.workers i = .idle)
    (hMode : s.mode = .up) :
    Inv ident s := by
  constructor <;> grind

namespace Step

/- Additions and Removals. -/

private theorem rows_committed
    (hInv : Inv ident s)
    (hStep : Step ident s t) :
    ∀ k ∈ t.rows, k ∈ t.committed := by
  have hRows := hInv.rows_committed
  cases hStep <;> grind

/- A commit adds a key whose identifier is new. -/
private theorem committed_injective
    (hInv : Inv ident s)
    (hStep : Step ident s t) :
    ∀ k ∈ t.committed, ∀ x ∈ t.committed,
      ident k = ident x → k = x := by
  have hOld := hInv.committed_injective
  cases hStep with
  | @commit i e hMode hWorker hKind =>
      have hNew :=
        hInv.adds_fresh i e.key
          (by simp [hWorker, Worker.task, hKind])
      grind
  | _ => exact hOld

/-
  A row goes only with a removal, by a worker or in the work
  on the journal, and every removal is of a named key.
-/
private theorem kept
    (hInv : Inv ident s)
    (hStep : Step ident s t) :
    ∀ k ∈ t.committed, k ∈ t.rows ∨ k ∈ t.named := by
  have hKept := hInv.kept
  have hInjective := hInv.committed_injective
  cases hStep with
  | @deleteRow i e hMode hWorker hKind =>
      have hNamed :=
        hInv.removes_named i e.key
          (by simp [hWorker, Worker.task, hKind])
      grind
  | @undoRow e hMode =>
      rcases hMode with hUndoing | ⟨_, hEntry, _, hKind⟩
      · have hAdd := hInv.undoing_mem e hUndoing
        have hFresh :=
          hInv.add_entry_fresh e hAdd.1 hAdd.2.1
        grind
      · have hNamed := hInv.remove_entry e hEntry hKind
        grind
  | _ => grind

private theorem adds_fresh
    (hInv : Inv ident s)
    (hStep : Step ident s t) :
    ∀ i k, (t.workers i).task = some (.add, k) →
      ∀ x ∈ t.committed, ident x ≠ ident k := by
  have hFresh := hInv.adds_fresh
  have hDistinct := hInv.adds_distinct
  cases hStep <;> grind [Fresh]

private theorem adds_distinct
    (hInv : Inv ident s)
    (hStep : Step ident s t) :
    ∀ i j k x, (t.workers i).task = some (.add, k) →
      (t.workers j).task = some (.add, x) →
        ident k = ident x → i = j := by
  have hDistinct := hInv.adds_distinct
  cases hStep <;> grind [Fresh]

private theorem removes_named
    (hInv : Inv ident s)
    (hStep : Step ident s t) :
    ∀ i k, (t.workers i).task = some (.remove, k) →
      k ∈ t.committed ∧ k ∈ t.named := by
  have hNamed := hInv.removes_named
  have hRows := hInv.rows_committed
  cases hStep <;> grind

/- The Journal. -/

/-
  Marking and clearing touch the entry of one worker's op,
  and no other worker has an entry with that op.
-/
private theorem entry_mem
    (hInv : Inv ident s)
    (hStep : Step ident s t) :
    ∀ i e, (t.workers i).entry = some e →
      e ∈ t.journal := by
  have hMem := hInv.entry_mem
  have hDistinct := hInv.entry_distinct
  have hIdle := hInv.down_idle
  cases hStep <;> grind

private theorem entry_distinct
    (hInv : Inv ident s)
    (hStep : Step ident s t) :
    ∀ i j e x, (t.workers i).entry = some e →
      (t.workers j).entry = some x →
        e.op = x.op → i = j := by
  have hMem := hInv.entry_mem
  have hDistinct := hInv.entry_distinct
  cases hStep <;> grind

private theorem op_unique
    (hInv : Inv ident s)
    (hStep : Step ident s t) :
    ∀ e ∈ t.journal, ∀ x ∈ t.journal,
      e.op = x.op → e = x := by
  have hUnique := hInv.op_unique
  cases hStep <;> grind

/- A commit clears the only entry of its identifier. -/
private theorem add_entry_fresh
    (hInv : Inv ident s)
    (hStep : Step ident s t) :
    ∀ e ∈ t.journal, e.kind = .add →
      ∀ x ∈ t.committed, ident x ≠ ident e.key := by
  have hFresh := hInv.add_entry_fresh
  have hAdds := hInv.adds_fresh
  have hUnique := hInv.add_entry_unique
  have hMem := hInv.entry_mem
  cases hStep <;> grind

private theorem add_entry_unique
    (hInv : Inv ident s)
    (hStep : Step ident s t) :
    ∀ e ∈ t.journal, ∀ x ∈ t.journal,
      e.kind = .add → x.kind = .add →
        ident e.key = ident x.key → e = x := by
  have hUnique := hInv.add_entry_unique
  have hChosen := hInv.chosen_unlogged
  cases hStep <;> grind

private theorem chosen_unlogged
    (hInv : Inv ident s)
    (hStep : Step ident s t) :
    ∀ i k, t.workers i = .chosen .add k →
      ∀ e ∈ t.journal, e.kind = .add →
        ident e.key ≠ ident k := by
  have hChosen := hInv.chosen_unlogged
  have hDistinct := hInv.adds_distinct
  cases hStep <;> grind [Fresh]

private theorem remove_entry
    (hInv : Inv ident s)
    (hStep : Step ident s t) :
    ∀ e ∈ t.journal, e.kind = .remove →
      e.key ∈ t.committed ∧ e.key ∈ t.named := by
  have hEntry := hInv.remove_entry
  have hNamed := hInv.removes_named
  cases hStep <;> grind

private theorem down_idle
    (hInv : Inv ident s)
    (hStep : Step ident s t) :
    t.mode ≠ .up → ∀ i, t.workers i = .idle := by
  have hIdle := hInv.down_idle
  cases hStep <;> grind

/- The First Store. -/

/- Others remove committed keys only, and this one is not. -/
private theorem added_point
    (hInv : Inv ident s)
    (hStep : Step ident s t) :
    ∀ i e,
      t.workers i = .written e ∨ t.workers i = .marked e →
        e.kind = .add → e.key ∈ t.points := by
  have hPoint := hInv.added_point
  have hIdle := hInv.down_idle
  have hFresh := hInv.adds_fresh
  cases hStep with
  | @writeRemove i e hMode hWorker hKind =>
      have hCommitted :=
        hInv.removes_named i e.key
          (by simp [hWorker, Worker.task, hKind])
      intro j x hx hAdd
      have hx' :
          s.workers j = .written x ∨
            s.workers j = .marked x := by
        grind
      have hTask :
          (s.workers j).task = some (.add, x.key) := by
        grind
      have hNe := hFresh j x.key hTask e.key hCommitted.1
      grind
  | _ => grind

/- Others add uncommitted keys only, and this one is not. -/
private theorem removed_point
    (hInv : Inv ident s)
    (hStep : Step ident s t) :
    ∀ i e,
      t.workers i = .written e ∨ t.workers i = .marked e →
        e.kind = .remove → e.key ∉ t.points := by
  have hPoint := hInv.removed_point
  have hNamed := hInv.removes_named
  cases hStep with
  | @writeAdd i e hMode hWorker hKind =>
      have hFresh :=
        hInv.adds_fresh i e.key
          (by simp [hWorker, Worker.task, hKind])
      intro j x hx hRemove
      have hx' :
          s.workers j = .written x ∨
            s.workers j = .marked x := by
        grind
      have hTask :
          (s.workers j).task = some (.remove, x.key) := by
        grind
      have hNe := hFresh x.key (hNamed j x.key hTask).1
      grind
  | _ => grind

private theorem remove_entry_point
    (hInv : Inv ident s)
    (hStep : Step ident s t) :
    ∀ e ∈ t.journal, e.kind = .remove →
      e.reached = true → e.key ∉ t.points := by
  have hPoint := hInv.remove_entry_point
  have hFresh := hInv.adds_fresh
  have hEntry := hInv.remove_entry
  have hRemoved := hInv.removed_point
  have hMem := hInv.entry_mem
  have hUnique := hInv.op_unique
  cases hStep <;> grind

/- A deleted row does not come back: its key is committed. -/
private theorem deleted_row
    (hInv : Inv ident s)
    (hStep : Step ident s t) :
    ∀ i e, t.workers i = .deleted e →
      e.kind = .remove ∧ e.key ∉ t.rows := by
  have hRow := hInv.deleted_row
  cases hStep with
  | @commit i e hMode hWorker hKind =>
      have hFresh :=
        hInv.adds_fresh i e.key
          (by simp [hWorker, Worker.task, hKind])
      intro j x hx
      have hx' : s.workers j = .deleted x := by grind
      have hOld := hRow j x hx'
      have hCommitted :=
        hInv.removes_named j x.key
          (by simp [hx', Worker.task, hOld.1])
      have hNe := hFresh x.key hCommitted.1
      grind
  | _ => grind

private theorem undoing_mem
    (hInv : Inv ident s)
    (hStep : Step ident s t) :
    ∀ e, t.mode = .pointUndone e →
      e ∈ t.journal ∧ e.kind = .add ∧
        e.reached = true ∧ e.key ∉ t.points := by
  have hUndoing := hInv.undoing_mem
  cases hStep <;> grind

private theorem undone_mem
    (hInv : Inv ident s)
    (hStep : Step ident s t) :
    ∀ e, t.mode = .undone e →
      e ∈ t.journal ∧
        (e.reached = true →
          (e.kind = .add → e.key ∉ t.points) ∧
            (e.kind = .remove → e.key ∉ t.rows)) := by
  have hUndone := hInv.undone_mem
  have hUndoing := hInv.undoing_mem
  cases hStep <;> grind

/- Every step preserves the invariant. -/
theorem inv
    (hStep : Step ident s t)
    (hInv : Inv ident s) :
    Inv ident t where
  rows_committed := rows_committed hInv hStep
  committed_injective := committed_injective hInv hStep
  kept := kept hInv hStep
  adds_fresh := adds_fresh hInv hStep
  adds_distinct := adds_distinct hInv hStep
  removes_named := removes_named hInv hStep
  entry_mem := entry_mem hInv hStep
  entry_distinct := entry_distinct hInv hStep
  op_unique := op_unique hInv hStep
  add_entry_fresh := add_entry_fresh hInv hStep
  add_entry_unique := add_entry_unique hInv hStep
  chosen_unlogged := chosen_unlogged hInv hStep
  remove_entry := remove_entry hInv hStep
  down_idle := down_idle hInv hStep
  added_point := added_point hInv hStep
  removed_point := removed_point hInv hStep
  remove_entry_point := remove_entry_point hInv hStep
  deleted_row := deleted_row hInv hStep
  undoing_mem := undoing_mem hInv hStep
  undone_mem := undone_mem hInv hStep

end Step

------------------------------------------------------------
-- Removed Keys
------------------------------------------------------------

/- A key that was a row once and is in neither store. -/
structure Gone
    (s : State Key Op)
    (k : Key) : Prop where
  committed : k ∈ s.committed
  rows : k ∉ s.rows
  points : k ∉ s.points

/- At the end of a removal the key is gone. -/
theorem Inv.gone_of_deleted
    {i : Nat} {e : Entry Key Op}
    (hInv : Inv ident s)
    (hWorker : s.workers i = .deleted e) :
    Gone s e.key := by
  rcases hInv.deleted_row i e hWorker with ⟨hKind, hRow⟩
  have hEntry : e.reach ∈ s.journal :=
    hInv.entry_mem i e.reach (by rw [hWorker, Worker.entry])
  refine ⟨?_, hRow, ?_⟩
  · exact (hInv.removes_named i e.key
      (by simp [hWorker, Worker.task, hKind])).1
  · exact hInv.remove_entry_point e.reach hEntry hKind rfl

/- An addition is of another key, so a key that went stays. -/
theorem Step.gone
    {k : Key}
    (hStep : Step ident s t)
    (hInv : Inv ident s)
    (hGone : Gone s k) :
    Gone t k := by
  rcases hGone with ⟨hCommitted, hRow, hPoint⟩
  have hFresh :
      ∀ i x, (s.workers i).task = some (.add, x) → k ≠ x := by
    rintro i x hTask rfl
    exact hInv.adds_fresh i k hTask k hCommitted rfl
  constructor <;> cases hStep <;> grind

------------------------------------------------------------
-- Agreement of the Two Stores
------------------------------------------------------------

/-
  A step that takes a worker off its key between its write
  to the first store and the mark of its entry.
-/
def Interrupts
    (kind : Kind)
    (s t : State Key Op) : Prop :=
  ∃ i e, s.workers i = .written e ∧ e.kind = kind ∧
    t.workers i = .idle

/-
  A write of one kind that has reached the first store and
  is seen to: by its worker, or by its marked entry.
-/
def Seen
    (kind : Kind)
    (s : State Key Op)
    (k : Key) : Prop :=
  (∃ i e, s.workers i = .written e ∧ e.kind = kind ∧
    e.key = k) ∨
  ∃ e ∈ s.journal, e.kind = kind ∧ e.reached = true ∧
    e.key = k

/- Every point has its row, or an addition under way. -/
def PointsCovered (s : State Key Op) : Prop :=
  ∀ k ∈ s.points, k ∈ s.rows ∨ Seen .add s k

/- Every row has its point, or a removal under way. -/
def RowsCovered (s : State Key Op) : Prop :=
  ∀ k ∈ s.rows, k ∈ s.points ∨ Seen .remove s k

namespace Step

/-
  An entry that is cleared leaves both stores in agreement
  on its key; every other entry stays.
-/
private theorem seen_of_clear
    {kind : Kind} {k : Key} {c x : Entry Key Op}
    {points rows : Set Key}
    (hInv : Inv ident s)
    (hCleared : c ∈ s.journal)
    (hSettled :
      c.reached = true → (c.key ∈ points ↔ c.key ∈ rows))
    (hx : x ∈ s.journal)
    (hKind : x.kind = kind)
    (hReached : x.reached = true)
    (hKey : x.key = k) :
    (∃ e ∈ clearEntry c.op s.journal,
      e.kind = kind ∧ e.reached = true ∧ e.key = k) ∨
      (k ∈ points ↔ k ∈ rows) := by
  by_cases hOp : x.op = c.op
  · obtain rfl := hInv.op_unique x hx c hCleared hOp
    exact Or.inr (hKey ▸ hSettled hReached)
  · exact Or.inl ⟨x, ⟨hx, hOp⟩, hKind, hReached, hKey⟩

/-
  A write that is seen to stays so until both stores agree
  on its key, unless its worker is interrupted.
-/
theorem seen
    {kind : Kind} {k : Key}
    (hStep : Step ident s t)
    (hInv : Inv ident s)
    (hSeen : Seen kind s k)
    (hRun : ¬ Interrupts kind s t) :
    Seen kind t k ∨ (k ∈ t.points ↔ k ∈ t.rows) := by
  rcases hSeen with ⟨j, x, hx, hKind, hKey⟩ |
    ⟨x, hx, hKind, hReached, hKey⟩
  · -- a worker between its write and its mark
    cases hStep with
    | @mark i e hMode hWorker =>
        by_cases hj : j = i
        · subst hj
          obtain rfl : e = x := by grind
          have hEntry : e ∈ s.journal :=
            hInv.entry_mem j e
              (by simp [hWorker, Worker.entry])
          exact Or.inl (Or.inr
            ⟨e.reach, Or.inr ⟨e, hEntry, rfl, rfl⟩,
              hKind, rfl, hKey⟩)
        · exact Or.inl (Or.inl
            ⟨j, x, by simpa [hj] using hx, hKind, hKey⟩)
    | @stop i hMode =>
        by_cases hj : j = i
        · subst hj
          exact absurd ⟨j, x, hx, hKind, by simp⟩ hRun
        · exact Or.inl (Or.inl
            ⟨j, x, by simpa [hj] using hx, hKind, hKey⟩)
    | crash => exact absurd ⟨j, x, hx, hKind, rfl⟩ hRun
    | _ =>
        exact Or.inl (Or.inl ⟨j, x, by grind, hKind, hKey⟩)
  · -- a marked entry
    cases hStep with
    | @log i kind' k' o hMode hWorker hFresh =>
        exact Or.inl (Or.inr
          ⟨x, Or.inl hx, hKind, hReached, hKey⟩)
    | @mark i e hMode hWorker =>
        by_cases hOp : x.op = e.op
        · exact Or.inl (Or.inr
            ⟨x.reach, Or.inr ⟨x, hx, hOp, rfl⟩,
              hKind, rfl, hKey⟩)
        · exact Or.inl (Or.inr
            ⟨x, Or.inl ⟨hx, hOp⟩, hKind, hReached, hKey⟩)
    | @commit i e hMode hWorker hAdd =>
        have hEntry :=
          hInv.entry_mem i e.reach
            (by simp [hWorker, Worker.entry])
        have hPoint :=
          hInv.added_point i e (Or.inr hWorker) hAdd
        have hSettled :
            e.key ∈ s.points ↔ e.key ∈ s.rows ∪ {e.key} :=
          iff_of_true hPoint (Or.inr rfl)
        exact (seen_of_clear hInv hEntry
          (fun _ => hSettled) hx hKind hReached hKey).imp_left
            Or.inr
    | @complete i e hMode hWorker =>
        have hEntry :=
          hInv.entry_mem i e.reach
            (by simp [hWorker, Worker.entry])
        have hDeleted := hInv.deleted_row i e hWorker
        have hPoint :=
          hInv.remove_entry_point e.reach hEntry
            hDeleted.1 rfl
        exact (seen_of_clear hInv hEntry
          (fun _ => iff_of_false hPoint hDeleted.2)
            hx hKind hReached hKey).imp_left Or.inr
    | @clear e hMode =>
        have hUndone := hInv.undone_mem e hMode
        have hSettled :
            e.reached = true →
              (e.key ∈ s.points ↔ e.key ∈ s.rows) := by
          intro hDone
          cases hSide : e.kind with
          | add =>
              have hFresh :=
                hInv.add_entry_fresh e hUndone.1 hSide
              exact iff_of_false
                ((hUndone.2 hDone).1 hSide)
                (fun hRow =>
                  hFresh e.key
                    (hInv.rows_committed _ hRow) rfl)
          | remove =>
              exact iff_of_false
                (hInv.remove_entry_point e hUndone.1
                  hSide hDone)
                ((hUndone.2 hDone).2 hSide)
        exact (seen_of_clear hInv hUndone.1 hSettled
          hx hKind hReached hKey).imp_left Or.inr
    | _ =>
        exact Or.inl (Or.inr
          ⟨x, hx, hKind, hReached, hKey⟩)

/-
  Deleting the rows of one committed key leaves every other
  row in place.
-/
private theorem mem_deleteRows_of_ne
    {k x : Key}
    (hInv : Inv ident s)
    (hCommitted : k ∈ s.committed)
    (hx : x ∈ s.rows)
    (hNe : x ≠ k) :
    x ∈ deleteRows ident k s.rows :=
  ⟨hx, fun hIdent =>
    hNe (hInv.committed_injective x
      (hInv.rows_committed x hx) k hCommitted hIdent)⟩

/-
  Additions that are not interrupted between write and mark
  leave no point without its row behind.
-/
theorem pointsCovered
    (hStep : Step ident s t)
    (hInv : Inv ident s)
    (hCovered : PointsCovered s)
    (hRun : ¬ Interrupts .add s t) :
    PointsCovered t := by
  intro k hk
  have hSeen :
      Seen .add s k → k ∈ t.rows ∨ Seen .add t k := by
    intro hSeen
    rcases seen hStep hInv hSeen hRun with
      hLater | hSettled
    · exact Or.inr hLater
    · exact Or.inl (hSettled.mp hk)
  cases hStep with
  | @writeAdd i e hMode hWorker hKind =>
      rcases hk with hk | rfl
      · exact (hCovered k hk).elim Or.inl hSeen
      · exact Or.inr (Or.inl ⟨i, e, by simp, hKind, rfl⟩)
  | @writeRemove i e hMode hWorker hKind =>
      exact (hCovered k hk.1).elim Or.inl hSeen
  | @undoPoint e hMode hEntry hReached hKind =>
      exact (hCovered k hk.1).elim Or.inl hSeen
  | @commit i e hMode hWorker hKind =>
      exact (hCovered k hk).elim
        (fun hRow => Or.inl (Or.inl hRow)) hSeen
  | @deleteRow i e hMode hWorker hKind =>
      -- the row's own point went with the write before
      have hPoint :=
        hInv.removed_point i e (Or.inr hWorker) hKind
      have hCommitted :=
        (hInv.removes_named i e.key
          (by simp [hWorker, Worker.task, hKind])).1
      rcases hCovered k hk with hRow | hOld
      · exact Or.inl (mem_deleteRows_of_ne hInv hCommitted
          hRow (fun hEq => hPoint (hEq ▸ hk)))
      · exact hSeen hOld
  | @undoRow e hMode =>
      rcases hCovered k hk with hRow | hOld
      · rcases hMode with
          hUndoing | ⟨_, hEntry, hReached, hKind⟩
        · -- an addition's key is nobody's row
          have hAdd := hInv.undoing_mem e hUndoing
          exact Or.inl ⟨hRow,
            hInv.add_entry_fresh e hAdd.1 hAdd.2.1 k
              (hInv.rows_committed k hRow)⟩
        · have hPoint :=
            hInv.remove_entry_point e hEntry hKind hReached
          exact Or.inl (mem_deleteRows_of_ne hInv
            (hInv.remove_entry e hEntry hKind).1
            hRow (fun hEq => hPoint (hEq ▸ hk)))
      · exact hSeen hOld
  | _ => exact (hCovered k hk).elim Or.inl hSeen

/-
  Removals that are not interrupted between write and mark
  leave no row without its point behind.
-/
theorem rowsCovered
    (hStep : Step ident s t)
    (hInv : Inv ident s)
    (hCovered : RowsCovered s)
    (hRun : ¬ Interrupts .remove s t) :
    RowsCovered t := by
  intro k hk
  have hSeen :
      Seen .remove s k → k ∈ t.points ∨ Seen .remove t k := by
    intro hSeen
    rcases seen hStep hInv hSeen hRun with
      hLater | hSettled
    · exact Or.inr hLater
    · exact Or.inl (hSettled.mpr hk)
  cases hStep with
  | @writeAdd i e hMode hWorker hKind =>
      exact (hCovered k hk).elim
        (fun hPoint => Or.inl (Or.inl hPoint)) hSeen
  | @writeRemove i e hMode hWorker hKind =>
      rcases hCovered k hk with hPoint | hOld
      · by_cases hKey : k = e.key
        · exact Or.inr (Or.inl
            ⟨i, e, by simp, hKind, hKey.symm⟩)
        · exact Or.inl ⟨hPoint, hKey⟩
      · exact hSeen hOld
  | @commit i e hMode hWorker hKind =>
      rcases hk with hk | rfl
      · exact (hCovered k hk).elim Or.inl hSeen
      · -- the new row's point was written before
        exact Or.inl
          (hInv.added_point i e (Or.inr hWorker) hKind)
  | @deleteRow i e hMode hWorker hKind =>
      exact (hCovered k hk.1).elim Or.inl hSeen
  | @undoPoint e hMode hEntry hReached hKind =>
      -- an addition's key is nobody's row
      have hFresh :=
        hInv.add_entry_fresh e hEntry hKind k
          (hInv.rows_committed k hk)
      exact (hCovered k hk).elim
        (fun hPoint => Or.inl
          ⟨hPoint, fun hEq => hFresh (congrArg ident hEq)⟩)
        hSeen
  | @undoRow e hMode =>
      exact (hCovered k hk.1).elim Or.inl hSeen
  | _ => exact (hCovered k hk).elim Or.inl hSeen

end Step

/-
  A worker leaves its marked addition in the journal while
  work goes on.
-/
def Abandons (s t : State Key Op) : Prop :=
  t.mode = .up ∧
    ∃ i e, s.workers i = .marked e ∧ e.kind = .add ∧
      t.workers i = .idle ∧ e.reach ∈ t.journal

/- While work goes on, marked additions have their worker. -/
def AddsOwned (s : State Key Op) : Prop :=
  s.mode = .up →
    ∀ x ∈ s.journal, x.kind = .add → x.reached = true →
      ∃ i e, s.workers i = .marked e ∧ e.reach = x

/- Marked additions that nobody abandons stay owned. -/
theorem Step.addsOwned
    (hStep : Step ident s t)
    (hInv : Inv ident s)
    (hOwned : AddsOwned s)
    (hKept : ¬ Abandons s t) :
    AddsOwned t := by
  intro hUp x hx hAdd hReached
  -- an entry from before, whose worker the step leaves alone
  have hSame :
      s.mode = .up → x ∈ s.journal →
        (∀ i e, s.workers i = .marked e → e.reach = x →
          t.workers i = .marked e) →
        ∃ i e, t.workers i = .marked e ∧ e.reach = x := by
    intro hMode hOld hWorkers
    rcases hOwned hMode x hOld hAdd hReached with
      ⟨i, e, he, hEq⟩
    exact ⟨i, e, hWorkers i e he hEq, hEq⟩
  cases hStep with
  | name keys => exact hSame hUp hx (fun _ _ h _ => h)
  | @log i kind k o hMode hWorker hFresh =>
      rcases hx with hx | rfl
      · exact hSame hUp hx (by grind)
      · cases hReached
  | @mark i e hMode hWorker =>
      rcases hx with ⟨hx, hOp⟩ | ⟨y, hy, hOp, rfl⟩
      · exact hSame hUp hx (by grind)
      · have hEntry :=
          hInv.entry_mem i e (by simp [hWorker, Worker.entry])
        obtain rfl := hInv.op_unique y hy e hEntry hOp
        exact ⟨i, y, by simp, rfl⟩
  | @commit i e hMode hWorker hKind =>
      refine hSame hUp hx.1 ?_
      intro j y hy hEq
      have hNe : j ≠ i := by
        rintro rfl
        obtain rfl : y = e := by grind
        exact hx.2 (by simp [← hEq, Entry.reach])
      simpa [hNe] using hy
  | @complete i e hMode hWorker =>
      exact hSame hUp hx.1 (by grind)
  | @stop i hMode =>
      refine hSame hUp hx ?_
      intro j y hy hEq
      have hNe : j ≠ i := by
        rintro rfl
        exact hKept ⟨hUp, j, y, hy, by
          simpa [← hEq, Entry.reach] using hAdd,
          by simp, hEq ▸ hx⟩
      simpa [hNe] using hy
  | recovered hMode hJournal => simp [hJournal] at hx
  | crash => cases hUp
  | skip => cases hUp
  | undoPoint => cases hUp
  | undoRow => cases hUp
  | clear => cases hUp
  | _ => exact hSame hUp hx (by grind)

/-
  While work goes on, a point without a row is that of an
  addition past its write.
-/
theorem row_or_adding
    {k : Key}
    (hPoints : PointsCovered s)
    (hOwned : AddsOwned s)
    (hMode : s.mode = .up)
    (hk : k ∈ s.points) :
    k ∈ s.rows ∨
      ∃ i e, (s.workers i = .written e ∨
        s.workers i = .marked e) ∧
          e.kind = .add ∧ e.key = k := by
  rcases hPoints k hk with
    hRow | ⟨i, e, he, hAdd, hKey⟩ |
      ⟨x, hx, hAdd, hReached, hKey⟩
  · exact Or.inl hRow
  · exact Or.inr ⟨i, e, Or.inl he, hAdd, hKey⟩
  · rcases hOwned hMode x hx hAdd hReached with
      ⟨i, e, he, rfl⟩
    exact Or.inr ⟨i, e, Or.inr he, hAdd, hKey⟩

/-
  With an empty journal and nobody at work the two stores
  hold the same keys.
-/
theorem points_eq_rows
    (hPoints : PointsCovered s)
    (hRows : RowsCovered s)
    (hJournal : s.journal = ∅)
    (hWorkers : ∀ i, s.workers i = .idle) :
    s.points = s.rows := by
  ext k
  constructor
  · intro hk
    have hCovered := hPoints k hk
    simpa [Seen, hJournal, hWorkers] using hCovered
  · intro hk
    have hCovered := hRows k hk
    simpa [Seen, hJournal, hWorkers] using hCovered

end IntentJournal
