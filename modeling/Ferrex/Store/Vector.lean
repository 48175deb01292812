import Ferrex.Lib.Paging
import Ferrex.Store.Schema

/-
  The vector store: the calls on the Qdrant collections of
  the namespaces.  A call on a namespace that is not a legal
  collection name gives the error.  The nearest-neighbour
  search itself is Qdrant's and stays a parameter.

  Main declarations:
    * `validateNamespace`, `collectionName`
    * `Qdrant.upsert`, `Qdrant.deleteByIds`
    * `NearestPoints`, `Qdrant.searchDense`
    * `ScrollPoints`, `Qdrant.scrollMemoryIds`
    * `Qdrant.HasMemoryPoint`
    * `Qdrant.scrollMemoryIds_eq`
-/

------------------------------------------------------------
-- Collections
------------------------------------------------------------

namespace Ferrex

namespace Store

def validateNamespace
    (ns : String) : Except String Unit :=
  if ns.isEmpty ∨
      ¬ ns.toList.all
        (fun c => c.isAlphanum || c == '_' || c == '-')
  then
    .error
      s!"invalid namespace: {ns.quote} (only alphanumeric, underscore, hyphen allowed)"
  else
    .ok ()

def collectionName
    (ns : String) : Except StoreError String :=
  match validateNamespace ns with
  | .error message => .error (.qdrant message)
  | .ok () => .ok ("ferrex_" ++ ns)

/-
  The collection of a namespace exists from the first call
  on; what creating it does to Qdrant's schema is not part
  of the points.
-/
def ensureCollection
    (ns : String) : Except StoreError Unit :=
  match collectionName ns with
  | .error e => .error e
  | .ok _ => .ok ()

theorem collectionName_eq_ok
    {ns name : String}
    (h : collectionName ns = .ok name) :
    name = "ferrex_" ++ ns := by
  unfold collectionName at h
  split at h
  · cases h
  · cases h
    rfl

------------------------------------------------------------
-- Points
------------------------------------------------------------

/-
  Qdrant's answer to a nearest-neighbour query over the
  points a filter leaves: ids with their cosine scores, at
  most as many as asked for.
-/
abbrev NearestPoints (Vec F : Type) :=
  List (Point Vec) → Vec → Nat → List (String × F)

/-
  Qdrant's answer to a scroll over the points a filter leaves,
  from an offset on: a page of ids, at most as many as asked
  for, and the offset of the next page.
-/
abbrev ScrollPoints (Vec : Type) :=
  List (Point Vec) → Nat → Option String →
    List String × Option String

def scrollPageSize : Nat := 1024

/-
  A scroll that goes through the points page by page, in an
  order that stays the same.
-/
def Scrolls
    {Vec : Type}
    (scroll : ScrollPoints Vec) : Prop :=
  ∀ points limit, (points.map Point.id).Nodup → 0 < limit →
    ∃ listing, listing.Perm (points.map Point.id) ∧
      Paging.Pages (scroll points limit) limit listing

namespace Qdrant

variable {Vec F : Type}

/- The points of one namespace. -/
def points
    (q : Qdrant Vec)
    (ns : String) : List (Point Vec) :=
  q.collections ("ferrex_" ++ ns)

/- The points of the memories of a namespace. -/
def memories
    (q : Qdrant Vec)
    (ns : String) : List (Point Vec) :=
  (q.points ns).filter (fun p => p.payload.IsMemory)

def setCollection
    (q : Qdrant Vec)
    (name : String)
    (points : List (Point Vec)) : Qdrant Vec where
  collections := fun n =>
    if n = name then points else q.collections n

def upsert
    (q : Qdrant Vec)
    (ns id : String)
    (vector : Vec)
    (contentText : String)
    (payload : Payload) :
    Except StoreError (Qdrant Vec) :=
  match collectionName ns with
  | .error e => .error e
  | .ok name =>
      .ok (q.setCollection name
        (Table.upsert Point.id
          ⟨id, vector, contentText, payload⟩
          (q.collections name)))

def deleteByIds
    (q : Qdrant Vec)
    (ns : String)
    (ids : List String) :
    Except StoreError (Qdrant Vec) :=
  if ids.isEmpty then
    .ok q
  else
    match collectionName ns with
    | .error e => .error e
    | .ok name =>
        .ok (q.setCollection name
          (Table.delete (fun p => p.id ∈ ids)
            (q.collections name)))

/- Dense-only search over the points that pass a filter. -/
def searchDense
    (nearest : NearestPoints Vec F)
    (q : Qdrant Vec)
    (ns : String)
    (vector : Vec)
    (limit : Nat)
    (filter : Payload → Bool) :
    Except StoreError (List (String × F)) :=
  match collectionName ns with
  | .error e => .error e
  | .ok name =>
      .ok (nearest
        ((q.collections name).filter
          (fun p => filter p.payload))
        vector limit)

------------------------------------------------------------
-- Scrolling
------------------------------------------------------------

/-
  The ids of the memory points alone, parsed.  `fuel` bounds
  the pages, of which there may be any number.
-/
def scrollMemoryIds
    (scroll : ScrollPoints Vec)
    (parseUuid : String → Option String)
    (fuel : Nat)
    (q : Qdrant Vec)
    (ns : String) : Option (Except StoreError (List String)) :=
  match collectionName ns with
  | .error e => some (.error e)
  | .ok name =>
      (Paging.collect
        (scroll
          ((q.collections name).filter
            (fun p => p.payload.IsMemory))
          scrollPageSize)
        parseUuid fuel none []).map .ok

------------------------------------------------------------
-- Effects of the Calls
------------------------------------------------------------

/- A memory point of a namespace with an id. -/
def HasMemoryPoint
    (q : Qdrant Vec)
    (ns id : String) : Prop :=
  ∃ p ∈ q.points ns, p.id = id ∧ p.payload.IsMemory

variable {q q' : Qdrant Vec}

theorem points_setCollection
    (ns ns' : String)
    (points : List (Point Vec)) :
    (q.setCollection ("ferrex_" ++ ns) points).points ns' =
      if ns' = ns then points else q.points ns' := by
  by_cases hEq : ns' = ns
  · subst ns'
    simp [Qdrant.points, setCollection]
  · simp [Qdrant.points, setCollection, hEq]

/- A successful upsert replaces one point of one namespace. -/
theorem upsert_eq_ok
    {ns id text : String} {vector : Vec}
    {payload : Payload}
    (h : q.upsert ns id vector text payload = .ok q') :
    ∀ ns', q'.points ns' =
      if ns' = ns then
        Table.upsert Point.id
          ⟨id, vector, text, payload⟩ (q.points ns)
      else
        q.points ns' := by
  unfold upsert collectionName at h
  split at h
  · cases h
  · rename_i name hName
    split at hName
    · cases hName
    · cases hName
      cases h
      exact fun ns' => points_setCollection ns ns' _

/- A successful deletion removes ids from one namespace. -/
theorem deleteByIds_eq_ok
    {ns : String} {ids : List String}
    (h : q.deleteByIds ns ids = .ok q') :
    ∀ ns', q'.points ns' =
      if ns' = ns then
        Table.delete (fun p => p.id ∈ ids) (q.points ns)
      else
        q.points ns' := by
  unfold deleteByIds collectionName at h
  split at h
  · rename_i hEmpty
    cases h
    intro ns'
    by_cases hSame : ns' = ns
    · subst hSame
      have hNil : ids = [] := List.isEmpty_iff.mp hEmpty
      simp [hNil, Table.delete]
    · rw [if_neg hSame]
  · split at h
    · cases h
    · rename_i name hName
      split at hName
      · cases hName
      · cases hName
        cases h
        exact fun ns' => points_setCollection ns ns' _

/- On a legal name, a deletion succeeds. -/
theorem deleteByIds_of_name
    {ns name : String}
    (hName : collectionName ns = .ok name)
    (ids : List String) :
    ∃ q', q.deleteByIds ns ids = .ok q' := by
  unfold deleteByIds
  rw [hName]
  by_cases hEmpty : ids.isEmpty = true
  · exact ⟨q, if_pos hEmpty⟩
  · exact ⟨_, if_neg hEmpty⟩

/- A search sees the points of its namespace and no other. -/
theorem searchDense_congr
    {nearest : NearestPoints Vec F} {ns : String}
    {vector : Vec} {limit : Nat} {filter : Payload → Bool}
    (h : q'.points ns = q.points ns) :
    q'.searchDense nearest ns vector limit filter =
      q.searchDense nearest ns vector limit filter := by
  unfold searchDense collectionName
  split
  · rfl
  · rename_i name hName
    split at hName
    · cases hName
    · cases hName
      rw [show q'.collections ("ferrex_" ++ ns) =
        q.collections ("ferrex_" ++ ns) from h]

/-
  An upsert depends on the points of the namespace alone.
-/
theorem upsert_congr
    {ns id text : String} {vector : Vec}
    {payload : Payload}
    (h : q'.points ns = q.points ns) :
    (∃ e, q.upsert ns id vector text payload = .error e ∧
      q'.upsert ns id vector text payload = .error e) ∨
    ∃ q₁ q₁', q.upsert ns id vector text payload = .ok q₁ ∧
      q'.upsert ns id vector text payload = .ok q₁' ∧
        q₁'.points ns = q₁.points ns := by
  cases hUpsert : q.upsert ns id vector text payload with
  | error e =>
      refine Or.inl ⟨e, rfl, ?_⟩
      unfold upsert at hUpsert ⊢
      split at hUpsert
      · exact hUpsert
      · cases hUpsert
  | ok q₁ =>
      refine Or.inr ⟨q₁, ?_⟩
      obtain ⟨q₁', hUpsert'⟩ :
          ∃ q₁', q'.upsert ns id vector text payload =
            .ok q₁' := by
        unfold upsert at hUpsert ⊢
        split at hUpsert
        · cases hUpsert
        · exact ⟨_, rfl⟩
      refine ⟨q₁', rfl, hUpsert', ?_⟩
      rw [upsert_eq_ok hUpsert ns, upsert_eq_ok hUpsert' ns,
        if_pos rfl, if_pos rfl, h]

/- With fuel for every page, a scroll finds every memory. -/
theorem scrollMemoryIds_eq
    {scroll : ScrollPoints Vec}
    {parseUuid : String → Option String}
    {ns name : String} {fuel : Nat}
    (hScroll : Scrolls scroll)
    (hName : collectionName ns = .ok name)
    (hIds : ((q.points ns).map Point.id).Nodup)
    (hUuids :
      ∀ p ∈ q.memories ns, parseUuid p.id = some p.id)
    (hFuel : (q.points ns).length < fuel) :
    ∃ ids, ids.Perm ((q.memories ns).map Point.id) ∧
      q.scrollMemoryIds scroll parseUuid fuel ns =
        some (.ok ids) := by
  have hMemories :
      ((q.memories ns).map Point.id).Nodup :=
    hIds.sublist (List.filter_sublist.map _)
  rcases hScroll (q.memories ns) scrollPageSize hMemories
    (by decide) with ⟨listing, hPerm, hPages⟩
  have hLength : listing.length < fuel := by
    rw [hPerm.length_eq, List.length_map]
    exact Nat.lt_of_le_of_lt (List.length_filter_le _ _) hFuel
  have hParsed : listing.filterMap parseUuid = listing := by
    conv_rhs => rw [← List.filterMap_some (l := listing)]
    apply List.filterMap_congr
    intro id hMem
    rcases List.mem_map.mp (hPerm.mem_iff.mp hMem) with
      ⟨p, hPoint, hId⟩
    rw [← hId]
    exact hUuids p hPoint
  refine ⟨listing, hPerm, ?_⟩
  have hCollect :
      Paging.collect
          (scroll (q.memories ns) scrollPageSize)
          parseUuid fuel none [] =
        some (listing.filterMap parseUuid) :=
    Paging.collect_eq hPages (by decide) hLength
  rw [hParsed] at hCollect
  unfold scrollMemoryIds
  rw [hName]
  dsimp only
  have hEq := collectionName_eq_ok hName
  subst hEq
  change Option.map _
    (Paging.collect (scroll (q.memories ns) scrollPageSize)
      parseUuid fuel none []) = _
  rw [hCollect]
  rfl

/- Upserting a memory point adds exactly that memory point. -/
theorem hasMemoryPoint_upsert_iff
    {ns id text ns' id' : String} {vector : Vec}
    {payload : Payload}
    (h : q.upsert ns id vector text payload = .ok q')
    (hMemory : payload.IsMemory) :
    q'.HasMemoryPoint ns' id' ↔
      (ns' = ns ∧ id' = id) ∨ q.HasMemoryPoint ns' id' := by
  unfold HasMemoryPoint
  rw [upsert_eq_ok h ns']
  by_cases hNs : ns' = ns
  · subst ns'
    simp only [if_true, Table.mem_upsert_iff, true_and]
    constructor
    · rintro ⟨p, hp | ⟨hp, _⟩, hId, hMem⟩
      · subst hp
        exact Or.inl hId.symm
      · exact Or.inr ⟨p, hp, hId, hMem⟩
    · rintro (rfl | ⟨p, hp, hId, hMem⟩)
      · exact ⟨_, Or.inl rfl, rfl, hMemory⟩
      · by_cases hSame : p.id = id
        · exact ⟨_, Or.inl rfl,
            by simp [← hId, hSame], hMemory⟩
        · exact ⟨p, Or.inr ⟨hp, hSame⟩, hId, hMem⟩
  · simp [hNs]

/-
  Upserting a point of an entity, under an id that no memory
  point has, leaves the memory points alone.
-/
theorem hasMemoryPoint_upsert_entity_iff
    {ns id text ns' id' : String} {vector : Vec}
    {payload : Payload}
    (h : q.upsert ns id vector text payload = .ok q')
    (hEntity : ¬ payload.IsMemory)
    (hFresh :
      ∀ p ∈ q.points ns, p.payload.IsMemory → p.id ≠ id) :
    q'.HasMemoryPoint ns' id' ↔ q.HasMemoryPoint ns' id' := by
  unfold HasMemoryPoint
  rw [upsert_eq_ok h ns']
  by_cases hNs : ns' = ns
  · subst ns'
    simp only [if_true, Table.mem_upsert_iff]
    constructor
    · rintro ⟨p, rfl | ⟨hp, _⟩, hId, hMem⟩
      · exact absurd hMem hEntity
      · exact ⟨p, hp, hId, hMem⟩
    · rintro ⟨p, hp, hId, hMem⟩
      exact ⟨p, Or.inr ⟨hp, hFresh p hp hMem⟩, hId, hMem⟩
  · simp [hNs]

/- Deleting an id removes exactly that memory point. -/
theorem hasMemoryPoint_deleteByIds_iff
    {ns id ns' id' : String}
    (h : q.deleteByIds ns [id] = .ok q') :
    q'.HasMemoryPoint ns' id' ↔
      ¬ (ns' = ns ∧ id' = id) ∧
        q.HasMemoryPoint ns' id' := by
  unfold HasMemoryPoint
  rw [deleteByIds_eq_ok h ns']
  by_cases hNs : ns' = ns
  · subst ns'
    simp only [if_true, Table.mem_delete_iff,
      List.mem_singleton, true_and]
    constructor
    · rintro ⟨p, ⟨hp, hNe⟩, rfl, hMem⟩
      exact ⟨hNe, p, hp, rfl, hMem⟩
    · rintro ⟨hNe, p, hp, rfl, hMem⟩
      exact ⟨p, ⟨hp, hNe⟩, rfl, hMem⟩
  · simp [hNs]

end Qdrant

end Store

end Ferrex
