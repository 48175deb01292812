import Mathlib.Data.List.Nodup

/-
  A map with a bounded number of entries: putting one into a
  full map drops the entry that was put longest ago.  Peeking
  at an entry leaves the order as it is.

  Main declarations:
    * `Lru`, `Lru.empty`
    * `Lru.peek`, `Lru.put`
    * `Lru.peek_put`
-/

/- The entries, the latest first, each key once. -/
structure Lru (Key Value : Type) where
  capacity : Nat
  entries : List (Key × Value)
  length_le : entries.length ≤ capacity
  nodup : (entries.map Prod.fst).Nodup

namespace Lru

variable {Key Value : Type}

/- A cache with room for some entries, and none yet. -/
def empty (capacity : Nat) : Lru Key Value where
  capacity := capacity
  entries := []
  length_le := Nat.zero_le _
  nodup := List.nodup_nil

variable [DecidableEq Key]

/- The value of a key, which does not count as a use. -/
def peek (m : Lru Key Value) (k : Key) : Option Value :=
  (m.entries.find? (fun e => e.1 = k)).map Prod.snd

/-
  The new entry comes first, the old one of its key goes.
-/
private def putEntries
    (entries : List (Key × Value))
    (k : Key)
    (v : Value) : List (Key × Value) :=
  (k, v) :: entries.filter (fun e => e.1 ≠ k)

/- The keys stay distinct when an entry is put. -/
private theorem putEntries_nodup
    {entries : List (Key × Value)}
    (k : Key)
    (v : Value)
    (hNodup : (entries.map Prod.fst).Nodup) :
    ((putEntries entries k v).map Prod.fst).Nodup := by
  unfold putEntries
  rw [List.map_cons, List.nodup_cons]
  constructor
  · simp
  · exact hNodup.sublist
      (List.filter_sublist.map Prod.fst)

/- Beyond the capacity the oldest entries go. -/
def put
    (m : Lru Key Value)
    (k : Key)
    (v : Value) : Lru Key Value where
  capacity := m.capacity
  entries := (putEntries m.entries k v).take m.capacity
  length_le := List.length_take_le _ _
  nodup :=
    (putEntries_nodup k v m.nodup).sublist
      ((List.take_sublist _ _).map Prod.fst)

theorem peek_empty
    (capacity : Nat)
    (k : Key) :
    (empty capacity : Lru Key Value).peek k = none :=
  rfl

/- What is found is an entry. -/
private theorem mem_of_peek
    {m : Lru Key Value} {k : Key} {v : Value}
    (h : m.peek k = some v) :
    (k, v) ∈ m.entries := by
  rcases Option.map_eq_some_iff.mp h with ⟨e, hFind, rfl⟩
  have hKey : e.1 = k := by
    simpa using List.find?_some hFind
  rw [← hKey]
  exact List.mem_of_find?_eq_some hFind

/- What is found was put last, or has another key. -/
theorem peek_put
    {m : Lru Key Value} {k k' : Key} {v v' : Value}
    (h : (m.put k v).peek k' = some v') :
    (k' = k ∧ v' = v) ∨
      (k' ≠ k ∧ m.peek k' = some v') := by
  have hMem := List.mem_of_mem_take (mem_of_peek h)
  rcases List.mem_cons.mp hMem with hEq | hOld
  · cases hEq
    exact Or.inl ⟨rfl, rfl⟩
  · right
    rcases List.mem_filter.mp hOld with ⟨hIn, hOther⟩
    refine ⟨by simpa using hOther, ?_⟩
    have hSome :
        (m.entries.find? (fun e => e.1 = k')).isSome :=
      List.find?_isSome.mpr ⟨_, hIn, by simp⟩
    rcases Option.isSome_iff_exists.mp hSome with ⟨e, hFind⟩
    have hKey : e.1 = k' := by
      simpa using List.find?_some hFind
    -- a key occurs once, so it is this entry that is found
    have hSame : e = (k', v') :=
      List.inj_on_of_nodup_map m.nodup
        (List.mem_of_find?_eq_some hFind) hIn hKey
    rw [peek, hFind, hSame]
    rfl

end Lru
