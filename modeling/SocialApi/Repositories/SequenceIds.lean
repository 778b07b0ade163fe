import SocialApi.Postgres

/-!
# The ids of likes

`likes.id` takes its values from a sequence and is never written again. Whatever the transactions
do, and in whatever order, two rows never have one id.

* `ids_applyAll`: a transaction commits no ids but those of the rows it has inserted.
* `numbered_handle`: every statement keeps the ids apart, those of open transactions included.
-/

namespace SocialApi.Repositories

open SocialApi.Concurrent SocialApi.Postgres

variable {ι : Type}

/-- The id of the row that a write inserts. -/
def insertedId : Write → Option I64
  | .insertLike row => some row.id
  | _ => none

/-- The ids of the rows that transaction `i` has inserted. -/
def pendingIds (d : DbState ι) (i : ι) : List I64 := ((d.store.txs i).getD []).filterMap insertedId

/-- The ids of the rows of a table. -/
def rowIds (t : Tables) : List I64 := t.likes.map LikesRow.id

/-- Every id has been taken from the sequence, by one transaction and for one row. -/
structure Numbered (d : DbState ι) : Prop where
  nodup : (rowIds d.store.committed).Nodup
  below : ∀ id ∈ rowIds d.store.committed, id.val < d.nextId
  pendingNodup : ∀ i, (pendingIds d i).Nodup
  pendingBelow : ∀ i, ∀ id ∈ pendingIds d i, id.val < d.nextId
  fresh : ∀ i, ∀ id ∈ pendingIds d i, id ∉ rowIds d.store.committed
  apart : ∀ i j, i ≠ j → ∀ id ∈ pendingIds d i, id ∉ pendingIds d j

/-- The ids after a transaction's writes are among those before and those it has inserted. -/
theorem ids_applyAll (ws : List Write) (t : Tables) :
    List.Sublist (rowIds (Store.applyAll layout ws t)) (rowIds t ++ ws.filterMap insertedId) := by
  induction ws generalizing t with
  | nil =>
    rw [List.filterMap_nil, List.append_nil]
    exact List.Sublist.refl _
  | cons w ws ih =>
    have hrest := ih (w.apply t)
    cases w with
    | insertLike row =>
      have hids : rowIds (Write.apply (.insertLike row) t) = rowIds t ++ [row.id] := List.map_append
      rw [hids, List.append_assoc] at hrest
      exact hrest
    | deleteLike key =>
      have hids : List.Sublist (rowIds (Write.apply (.deleteLike key) t)) (rowIds t) :=
        List.filter_sublist.map _
      exact hrest.trans (hids.append_right _)
    | setCount item count => exact hrest

section Statements

variable {d d' : DbState ι} {i : ι}

theorem pendingIds_of_txs {j : ι} (h : d'.store.txs j = d.store.txs j) :
    pendingIds d' j = pendingIds d j := by
  unfold pendingIds
  rw [h]

/-- Rows and writes that go away leave the others apart. -/
theorem Numbered.lose (h : Numbered d)
    (hids : List.Sublist (rowIds d'.store.committed) (rowIds d.store.committed))
    (hpending : ∀ j, List.Sublist (pendingIds d' j) (pendingIds d j))
    (hnext : d.nextId ≤ d'.nextId) : Numbered d' where
  nodup := h.nodup.sublist hids
  below id hid := (h.below id (hids.subset hid)).trans_le hnext
  pendingNodup j := (h.pendingNodup j).sublist (hpending j)
  pendingBelow j id hid := (h.pendingBelow j id ((hpending j).subset hid)).trans_le hnext
  fresh j id hid hrow := h.fresh j id ((hpending j).subset hid) (hids.subset hrow)
  apart j j' hne id hid hid' :=
    h.apart j j' hne id ((hpending j).subset hid) ((hpending j').subset hid')

/-- Tables whose ids are distinct and below the sequence, without open transactions. -/
theorem numbered_ofTables {t : Tables} (hstore : d.store = .ofTables t) (hnodup : (rowIds t).Nodup)
    (hbelow : ∀ id ∈ rowIds t, id.val < d.nextId) : Numbered d := by
  have hpending : ∀ i, pendingIds d i = [] := by
    intro i
    unfold pendingIds
    rw [hstore]
    rfl
  have hcommitted : d.store.committed = t := by rw [hstore]; rfl
  constructor
  · rwa [hcommitted]
  · rwa [hcommitted]
  all_goals simp [hpending]

/-- A value of the sequence that no row gets. -/
theorem Numbered.skip (h : Numbered d) : Numbered { d with nextId := d.nextId + 1 } := by
  refine h.lose (List.Sublist.refl _) (fun j => List.Sublist.refl _) ?_
  show d.nextId ≤ d.nextId + 1
  omega

variable [DecidableEq ι]

/-- Only one transaction changes, and it loses its writes. -/
theorem Numbered.clear (h : Numbered d)
    (hids : List.Sublist (rowIds d'.store.committed) (rowIds d.store.committed))
    (hself : pendingIds d' i = []) (hothers : ∀ j, j ≠ i → d'.store.txs j = d.store.txs j)
    (hnext : d.nextId ≤ d'.nextId) : Numbered d' := by
  refine h.lose hids (fun j => ?_) hnext
  by_cases hj : j = i
  · rw [hj, hself]
    exact List.nil_sublist _
  · rw [pendingIds_of_txs (hothers j hj)]

theorem Numbered.beginTx (h : Numbered d) (startedAt : ι → DateTime) :
    Numbered ⟨d.store.beginTx i, startedAt, d.nextId⟩ := by
  refine h.clear (i := i) (List.Sublist.refl _) ?_ (fun j hj => Store.beginTx_txs_ne hj) le_rfl
  unfold pendingIds
  rw [Store.beginTx_txs]
  rfl

theorem Numbered.abort (h : Numbered d) : Numbered { d with store := d.store.abort i } := by
  refine h.clear (i := i) (List.Sublist.refl _) ?_ (fun j hj => Store.abort_txs_ne hj) le_rfl
  unfold pendingIds
  rw [Store.abort_txs]
  rfl

/-- The rows of a transaction keep their ids when it commits. -/
theorem Numbered.commit (h : Numbered d) : Numbered { d with store := d.store.commit layout i } := by
  have hids : List.Sublist (rowIds (d.store.commit layout i).committed)
      (rowIds d.store.committed ++ pendingIds d i) := by
    rw [Store.commit_committed]
    exact ids_applyAll _ _
  have hself : pendingIds { d with store := d.store.commit layout i } i = [] := by
    unfold pendingIds
    rw [Store.commit_txs]
    rfl
  have hothers : ∀ j, j ≠ i →
      pendingIds { d with store := d.store.commit layout i } j = pendingIds d j := by
    intro j hj
    exact pendingIds_of_txs (Store.commit_txs_ne hj)
  constructor
  · refine List.Nodup.sublist hids ?_
    refine List.nodup_append.mpr ⟨h.nodup, h.pendingNodup i, fun id hid id' hid' he => ?_⟩
    exact h.fresh i id' hid' (he ▸ hid)
  · intro id hid
    rcases List.mem_append.mp (hids.subset hid) with hid | hid
    · exact h.below id hid
    · exact h.pendingBelow i id hid
  · intro j
    by_cases hj : j = i
    · rw [hj, hself]
      exact List.nodup_nil
    · rw [hothers j hj]
      exact h.pendingNodup j
  · intro j id hid
    by_cases hj : j = i
    · rw [hj, hself] at hid
      exact absurd hid List.not_mem_nil
    · rw [hothers j hj] at hid
      exact h.pendingBelow j id hid
  · intro j id hid hrow
    by_cases hj : j = i
    · rw [hj, hself] at hid
      exact absurd hid List.not_mem_nil
    · rw [hothers j hj] at hid
      rcases List.mem_append.mp (hids.subset hrow) with hrow | hrow
      · exact h.fresh j id hid hrow
      · exact h.apart j i hj id hid hrow
  · intro j j' hne id hid hid'
    by_cases hj : j = i
    · rw [hj, hself] at hid
      exact absurd hid List.not_mem_nil
    · by_cases hj' : j' = i
      · rw [hj', hself] at hid'
        exact absurd hid' List.not_mem_nil
      · rw [hothers j hj] at hid
        rw [hothers j' hj'] at hid'
        exact h.apart j j' hne id hid hid'

/-- One more write. -/
theorem pendingIds_write {w : Write} :
    pendingIds { d with store := d.store.write layout i w } i =
      pendingIds d i ++ [w].filterMap insertedId := by
  unfold pendingIds
  rw [Store.write_txs, Option.getD_some, List.filterMap_append]

/-- A write that inserts no row. -/
theorem Numbered.write (h : Numbered d) {w : Write} (hw : insertedId w = none) :
    Numbered { d with store := d.store.write layout i w } := by
  refine h.lose (List.Sublist.refl _) (fun j => ?_) le_rfl
  by_cases hj : j = i
  · subst hj
    rw [pendingIds_write, List.filterMap_cons_none hw, List.filterMap_nil, List.append_nil]
  · rw [pendingIds_of_txs (d := d) (Store.write_txs_ne hj)]

/-- The row that takes the next value of the sequence. -/
theorem Numbered.insert (h : Numbered d) {row : LikesRow} (hid : row.id.val = d.nextId) :
    Numbered { d with store := d.store.write layout i (.insertLike row), nextId := d.nextId + 1 } := by
  have hself : pendingIds
      { d with store := d.store.write layout i (.insertLike row), nextId := d.nextId + 1 } i =
      pendingIds d i ++ [row.id] := pendingIds_write
  have hothers : ∀ j, j ≠ i → pendingIds
      { d with store := d.store.write layout i (.insertLike row), nextId := d.nextId + 1 } j =
      pendingIds d j := by
    intro j hj
    exact pendingIds_of_txs (Store.write_txs_ne hj)
  have hpending : ∀ j, ∀ id ∈ pendingIds
      { d with store := d.store.write layout i (.insertLike row), nextId := d.nextId + 1 } j,
      id ∈ pendingIds d j ∨ j = i ∧ id = row.id := by
    intro j id hmem
    by_cases hj : j = i
    · subst hj
      rw [hself] at hmem
      rcases List.mem_append.mp hmem with hmem | hmem
      · exact Or.inl hmem
      · exact Or.inr ⟨rfl, List.mem_singleton.mp hmem⟩
    · rw [hothers j hj] at hmem
      exact Or.inl hmem
  constructor
  · exact h.nodup
  · intro id hmem
    have hbelow := h.below id hmem
    show id.val < d.nextId + 1
    omega
  · intro j
    by_cases hj : j = i
    · subst hj
      rw [hself]
      refine List.nodup_append.mpr ⟨h.pendingNodup j, List.nodup_singleton _, ?_⟩
      rintro id hmem id' hmem' rfl
      have hbelow := h.pendingBelow j id hmem
      rw [List.mem_singleton.mp hmem'] at hbelow
      omega
    · rw [hothers j hj]
      exact h.pendingNodup j
  · intro j id hmem
    show id.val < d.nextId + 1
    rcases hpending j id hmem with hmem | ⟨-, rfl⟩
    · have hbelow := h.pendingBelow j id hmem
      omega
    · omega
  · intro j id hmem hrow
    rcases hpending j id hmem with hmem | ⟨-, rfl⟩
    · exact h.fresh j id hmem hrow
    · have hbelow := h.below row.id hrow
      omega
  · intro j j' hne id hmem hmem'
    rcases hpending j id hmem with hmem | ⟨hj, rfl⟩
    · rcases hpending j' id hmem' with hmem' | ⟨-, rfl⟩
      · exact h.apart j j' hne id hmem hmem'
      · have hbelow := h.pendingBelow j row.id hmem
        omega
    · rcases hpending j' row.id hmem' with hmem' | ⟨hj', -⟩
      · have hbelow := h.pendingBelow j' row.id hmem'
        omega
      · exact hne (hj.trans hj'.symm)

theorem Numbered.setTotalCount (h : Numbered d) (item : Item) (v : Option I64) :
    Numbered (setTotalCount d i item v).1 := by
  unfold Postgres.setTotalCount
  cases v with
  | none => exact h
  | some c =>
    dsimp only
    split_ifs
    · exact h
    · exact h.write rfl

/-- Every statement keeps the ids apart, whichever transaction runs it. -/
theorem numbered_handle (h : Numbered d) {q : DbOp} {x : DbChoice} {r : q.Ans}
    (hs : Postgres.handle d i q x = some (d', r)) : Numbered d' := by
  cases x with
  | fail message =>
    obtain rfl := (Prod.mk.inj (Option.some.inj hs)).1
    cases q with
    | commit => exact h.abort
    | rollback => exact h.abort
    | _ => exact h
  | run now order =>
    have hs : runStatement d i now order q = some (d', r) := hs
    cases q with
    | begin =>
      cases hs
      exact h.beginTx _
    | insertLike userId item =>
      simp only [runStatement] at hs
      split_ifs at hs
      split at hs
      · cases hs
        exact h
      · rename_i id hid
        split at hs
        · cases hs
          exact h.skip
        · cases hs
          exact h.insert (I64.ofInt?_eq_some.mp hid)
    | incrementCount item =>
      simp only [runStatement] at hs
      split_ifs at hs
      split at hs
      · rw [← (Prod.mk.inj (Option.some.inj hs)).1]
        exact h.write rfl
      · rw [← (Prod.mk.inj (Option.some.inj hs)).1]
        exact h.setTotalCount _ _
    | deleteLike userId item =>
      simp only [runStatement] at hs
      split at hs
      · cases hs
        exact h
      · split_ifs at hs
        cases hs
        exact h.write rfl
    | decrementCount item =>
      simp only [runStatement] at hs
      split at hs
      · cases hs
        exact h
      · split_ifs at hs
        rw [← (Prod.mk.inj (Option.some.inj hs)).1]
        exact h.setTotalCount _ _
    | commit =>
      cases hs
      exact h.commit
    | rollback =>
      cases hs
      exact h.abort
    | _ =>
      cases hs
      exact h

end Statements

end SocialApi.Repositories
