import SocialApi.Repositories

/-!
# `like_counts` agrees with `likes`

`insert_like` and `delete_like` change two tables by two statements. The invariant
over all interleavings says of every open transaction what it has written so far
and what it relies on (`Holds`): a transaction that has inserted a row owes the
increment, one that has deleted a row owes the decrement, and neither may commit
before it has paid.

* `DbInv.handle`: every statement that a phase allows keeps the invariant.
* `insertLike_obeys`, `deleteLike_obeys`: the programs only perform such statements.
-/

namespace SocialApi.Repositories

open SocialApi.Concurrent SocialApi.Postgres

/-! ## The tables -/

/-- `total_count` is the number of rows of the item, and a user has at most one row for
    an item. -/
structure Consistent (t : Tables) : Prop where
  count : ∀ item, (t.totalCount item).val = (t.likesOf item).length
  unique : ∀ key, (t.likes.filter fun r => r.key = key).length ≤ 1

theorem likesOf_insert (row : LikesRow) (t : Tables) (item : Item) :
    ((Write.apply (.insertLike row) t).likesOf item).length =
      (t.likesOf item).length + if row.item = item then 1 else 0 := by
  unfold Tables.likesOf Write.apply
  rw [List.filter_append, List.length_append]
  split_ifs with h <;> simp [h]

theorem likesOf_delete {key : LikeKey} {t : Tables} {row : LikesRow}
    (hrow : t.likes.filter (fun r => r.key = key) = [row]) (item : Item) :
    ((Write.apply (.deleteLike key) t).likesOf item).length + (if key.2 = item then 1 else 0) =
      (t.likesOf item).length := by
  have hkey : ∀ r : LikesRow, r.key = key → r.item = key.2 := fun r h => by rw [← h]; rfl
  have hsplit := (List.length_eq_length_filter_add (l := t.likesOf item)
    (fun r => decide (r.key ≠ key)))
  have hother : (t.likesOf item).filter (fun r => !decide (r.key ≠ key)) =
      if key.2 = item then [row] else [] := by
    unfold Tables.likesOf
    rw [List.filter_filter]
    split_ifs with h
    · rw [← hrow]
      refine List.filter_congr fun r _ => ?_
      by_cases hr : r.key = key
      · simp [hr, hkey r hr, h]
      · simp [hr]
    · refine List.filter_eq_nil_iff.mpr fun r _ => ?_
      by_cases hr : r.key = key
      · simp [hr, hkey r hr, h]
      · simp [hr]
  rw [hother] at hsplit
  have hlen : ((Write.apply (.deleteLike key) t).likesOf item) =
      (t.likesOf item).filter fun r => decide (r.key ≠ key) := by
    unfold Tables.likesOf Write.apply
    rw [List.filter_filter, List.filter_filter]
    exact List.filter_congr fun r _ => Bool.and_comm _ _
  rw [hlen, hsplit]
  split_ifs <;> simp

theorem totalCount_setCount (item item' : Item) (c : I64) (t : Tables) :
    (Write.apply (.setCount item c) t).totalCount item' =
      if item = item' then c else t.totalCount item' := by
  unfold Tables.totalCount Write.apply
  by_cases h : item = item'
  · subst h; simp
  · simp [h, Function.update_of_ne (Ne.symm h)]

/-- The two writes of a committed `insert_like` keep the tables consistent. -/
theorem consistent_insert {t : Tables} (h : Consistent t) {row : LikesRow} {c : I64}
    (hkey : t.likes.filter (fun r => r.key = row.key) = [])
    (hc : c.val = (t.totalCount row.item).val + 1) :
    Consistent (Write.apply (.setCount row.item c) (Write.apply (.insertLike row) t)) := by
  constructor
  · intro item
    rw [totalCount_setCount]
    show _ = (((Write.apply (.insertLike row) t).likesOf item).length : ℤ)
    rw [likesOf_insert]
    have hcount := h.count item
    split_ifs with hi
    · subst hi; rw [hc]; push_cast; omega
    · show (t.totalCount item).val = _
      omega
  · intro key
    show ((t.likes ++ [row]).filter fun r => r.key = key).length ≤ 1
    rw [List.filter_append, List.length_append]
    by_cases hk : row.key = key
    · subst hk; simp [hkey]
    · simpa [hk] using h.unique key

/-- The two writes of a committed `delete_like` keep the tables consistent. -/
theorem consistent_delete {t : Tables} (h : Consistent t) {key : LikeKey} {c : I64}
    {row : LikesRow} (hrow : t.likes.filter (fun r => r.key = key) = [row])
    (hc : c.val + 1 = (t.totalCount key.2).val) :
    Consistent (Write.apply (.setCount key.2 c) (Write.apply (.deleteLike key) t)) := by
  constructor
  · intro item
    rw [totalCount_setCount]
    show _ = (((Write.apply (.deleteLike key) t).likesOf item).length : ℤ)
    have hdel := likesOf_delete hrow item
    have hcount := h.count item
    split_ifs at hdel ⊢ with hi
    · subst hi; omega
    · show (t.totalCount item).val = _
      omega
  · intro key'
    show ((t.likes.filter fun r => r.key ≠ key).filter fun r => r.key = key').length ≤ 1
    rw [List.filter_comm]
    exact (List.length_filter_le _ _).trans (h.unique key')

/-! ## Phases of a transaction -/

/-- How far a call is in its transaction: what it has written, and with which count. -/
inductive Phase where
  | outside
  | opened
  | inserted (key : LikeKey)
  | insertedCounted (key : LikeKey) (count : I64)
  | deleted (key : LikeKey)
  | deletedCounted (key : LikeKey) (count : I64)

namespace Phase

/-- The statements a phase allows. -/
def asks : Phase → DbOp → Prop
  | outside, .begin => True
  | outside, .countRow _ => True
  | outside, .batchGetCounts _ => True
  | outside, .getLikeStatus _ _ => True
  | outside, .batchGetStatuses _ _ => True
  | outside, .getUserLikes _ _ _ _ => True
  | opened, .insertLike _ _ => True
  | opened, .selectExisting _ _ => True
  | opened, .deleteLike _ _ => True
  | opened, .selectCount _ => True
  | opened, .commit => True
  | opened, .rollback => True
  | inserted key, .incrementCount item => key.2 = item
  | inserted _, .rollback => True
  | insertedCounted _ _, .commit => True
  | insertedCounted _ _, .rollback => True
  | deleted key, .decrementCount item => key.2 = item
  | deleted _, .rollback => True
  | deletedCounted _ _, .commit => True
  | deletedCounted _ _, .rollback => True
  | _, _ => False

/-- The phase after the answer to a statement. -/
def next (φ : Phase) : (q : DbOp) → q.Ans → Phase
  | .begin, .ok _ => opened
  | .insertLike userId item, .ok (some _) => inserted (userId, item)
  | .incrementCount _, .ok c =>
    match φ with
    | inserted key => insertedCounted key c
    | _ => φ
  | .deleteLike userId item, .ok n => if n > 0 then deleted (userId, item) else φ
  | .decrementCount _, .ok (some c) =>
    match φ with
    | deleted key => deletedCounted key c
    | _ => φ
  | .commit, _ => outside
  | .rollback, _ => outside
  | _, _ => φ

/-- What the answer to a statement is sure to be: the `UPDATE` of `delete_like` finds its
    row, and no statement violates the check constraint. -/
def Fits (_ : Phase) : (q : DbOp) → q.Ans → Prop
  | .decrementCount _, r => r ≠ .ok none ∧ ∀ name, r ≠ .error (.checkViolation name)
  | _, r => ∀ name, r ≠ .error (.checkViolation name)

end Phase

/-- The phases as a protocol for the statements. -/
def phases : Protocol DbOp DbOp.Ans Phase where
  asks := Phase.asks
  answers φ q r φ' := φ' = φ.next q r ∧ φ.Fits q r

section Invariant

variable {ι : Type} {s s' : DbState ι} {i j : ι}

/-- What transaction `i` has written in its phase, and what it relies on. -/
def Holds (s : DbState ι) (i : ι) : Phase → Prop
  | .outside => s.store.txs i = none
  | .opened => s.store.txs i = some []
  | .inserted key => ∃ row : LikesRow, row.key = key ∧
      s.store.txs i = some [.insertLike row] ∧ part (.like key) s.store.committed = .inl []
  | .insertedCounted key c => ∃ row : LikesRow, row.key = key ∧
      s.store.txs i = some [.insertLike row, .setCount key.2 c] ∧
      part (.like key) s.store.committed = .inl [] ∧
      ∃ old, part (.count key.2) s.store.committed = .inr old ∧ c.val = (old.getD 0).val + 1
  | .deleted key => s.store.txs i = some [.deleteLike key] ∧
      ∃ row, part (.like key) s.store.committed = .inl [row]
  | .deletedCounted key c => s.store.txs i = some [.deleteLike key, .setCount key.2 c] ∧
      (∃ row, part (.like key) s.store.committed = .inl [row]) ∧
      ∃ old, part (.count key.2) s.store.committed = .inr old ∧ c.val + 1 = (old.getD 0).val

/-- The invariant: the locks are in order, the committed tables are consistent, and every
    transaction is where its phase says. -/
structure DbInv (s : DbState ι) (phase : ι → Phase) : Prop where
  held : s.store.Held layout
  consistent : Consistent s.store.committed
  holds : ∀ i, Holds s i (phase i)

/-- What a transaction relies on is protected by its locks. -/
theorem Holds.of_part {φ : Phase} (h : Holds s i φ) (hheld : s.store.Held layout)
    (htx : s'.store.txs i = s.store.txs i)
    (hpart : ∀ ℓ, s.store.owner ℓ = some i → part ℓ s'.store.committed = part ℓ s.store.committed) :
    Holds s' i φ := by
  have hown : ∀ ws, s.store.txs i = some ws → ∀ w ∈ ws,
      part w.lock s'.store.committed = part w.lock s.store.committed :=
    fun ws hws w hw => hpart _ (hheld.owner_of_mem hws hw)
  cases φ with
  | outside => exact htx.trans h
  | opened => exact htx.trans h
  | inserted key =>
    obtain ⟨row, rfl, hws, hlike⟩ := h
    exact ⟨row, rfl, htx.trans hws, (hown _ hws (.insertLike row) (by simp)).trans hlike⟩
  | insertedCounted key c =>
    obtain ⟨row, rfl, hws, hlike, old, hold, hc⟩ := h
    exact ⟨row, rfl, htx.trans hws, (hown _ hws (.insertLike row) (by simp)).trans hlike, old,
      (hown _ hws (.setCount row.key.2 c) (by simp)).trans hold, hc⟩
  | deleted key =>
    obtain ⟨hws, row, hlike⟩ := h
    exact ⟨htx.trans hws, row, (hown _ hws (.deleteLike key) (by simp)).trans hlike⟩
  | deletedCounted key c =>
    obtain ⟨hws, ⟨row, hlike⟩, old, hold, hc⟩ := h
    exact ⟨htx.trans hws, ⟨row, (hown _ hws (.deleteLike key) (by simp)).trans hlike⟩, old,
      (hown _ hws (.setCount key.2 c) (by simp)).trans hold, hc⟩

/-- A transaction that has written nothing sees the committed tables. -/
theorem DbInv.view_of_opened {phase : ι → Phase} (h : DbInv s phase) (hi : phase i = .opened) :
    s.view i = s.store.committed := by
  have hopen := h.holds i
  rw [hi] at hopen
  rw [DbState.view, Store.view_of_txs hopen]
  rfl

variable {phase : ι → Phase}

theorem DbInv.nonneg (h : DbInv s phase) {item : Item} {c : I64}
    (hc : s.store.committed.likeCounts item = some c) : 0 ≤ c.val := by
  have hcount := h.consistent.count item
  rw [Tables.totalCount, hc, Option.getD_some] at hcount
  omega

/-- A transaction that has not written a count sees the committed one. -/
theorem view_likeCounts {ws : List Write} (hws : s.store.txs i = some ws)
    (hw : ∀ w ∈ ws, ∀ item c, w ≠ .setCount item c) (item : Item) :
    (s.view i).likeCounts item = s.store.committed.likeCounts item := by
  have hkey : ∀ (ws : List Write) (t : Tables), (∀ w ∈ ws, ∀ item c, w ≠ .setCount item c) →
      (Store.applyAll layout ws t).likeCounts = t.likeCounts := by
    intro ws
    induction ws with
    | nil => intro t _; rfl
    | cons w ws ih =>
      intro t hw
      rw [Store.applyAll, List.foldl_cons]
      refine (ih _ fun w' hw' => hw w' (List.mem_cons_of_mem _ hw')).trans ?_
      cases w with
      | insertLike row => rfl
      | deleteLike key => rfl
      | setCount item c => exact absurd rfl (hw _ List.mem_cons_self item c)
  unfold DbState.view
  rw [Store.view_of_txs hws, hkey ws _ hw]

/-- The count of an item with a row is there, and positive. -/
theorem DbInv.pos_of_row (h : DbInv s phase) {key : LikeKey} {row : LikesRow}
    (hrow : part (.like key) s.store.committed = .inl [row]) :
    ∃ c, s.store.committed.likeCounts key.2 = some c ∧ 1 ≤ c.val := by
  simp only [part, Sum.inl.injEq] at hrow
  have hmem : row ∈ s.store.committed.likes.filter fun r => r.key = key := by simp [hrow]
  have hmem' : row ∈ s.store.committed.likesOf key.2 := by
    obtain ⟨hin, hk⟩ := List.mem_filter.mp hmem
    refine List.mem_filter.mpr ⟨hin, ?_⟩
    rw [← of_decide_eq_true hk]; simp [LikesRow.key]
  have hpos := List.length_pos_of_mem hmem'
  have hcount := h.consistent.count key.2
  cases hc : s.store.committed.likeCounts key.2 with
  | none =>
    rw [Tables.totalCount, hc, Option.getD_none, I64.val_zero] at hcount
    omega
  | some c =>
    rw [Tables.totalCount, hc, Option.getD_some] at hcount
    exact ⟨c, rfl, by omega⟩

variable [DecidableEq ι]

/-- A step of `i` keeps the invariant if it keeps the committed tables consistent and
    leaves `i` where its next phase says. -/
theorem DbInv.of_step {phase : ι → Phase} (h : DbInv s phase)
    (hs : Store.Step layout i s.store s'.store) (hc : Consistent s'.store.committed)
    {φ : Phase} (hi : Holds s' i φ) : DbInv s' (Function.update phase i φ) := by
  refine ⟨hs.held h.held, hc, fun j => ?_⟩
  by_cases hj : j = i
  · subst hj; rwa [Function.update_self]
  · rw [Function.update_of_ne hj]
    exact (h.holds j).of_part h.held (hs.txs_ne hj) fun ℓ ho => hs.part_of_owner h.held ho hj

/-- The tables after a commit are consistent in every phase that may commit. -/
theorem consistent_commit {phase : ι → Phase} (h : DbInv s phase)
    (hask : (phase i).asks .commit) : Consistent (s.store.commit layout i).committed := by
  have hi := h.holds i
  rw [Store.commit_committed]
  cases hφ : phase i with
  | outside => rw [hφ] at hask; exact hask.elim
  | inserted key => rw [hφ] at hask; exact hask.elim
  | deleted key => rw [hφ] at hask; exact hask.elim
  | opened =>
    rw [hφ] at hi
    rw [Store.view_of_txs hi]
    exact h.consistent
  | insertedCounted key c =>
    rw [hφ] at hi
    obtain ⟨row, rfl, hws, hlike, old, hold, hc⟩ := hi
    rw [Store.view_of_txs hws]
    simp only [part, Sum.inl.injEq, Sum.inr.injEq] at hlike hold
    exact consistent_insert h.consistent hlike (by rw [hc, ← hold]; rfl)
  | deletedCounted key c =>
    rw [hφ] at hi
    obtain ⟨hws, ⟨row, hlike⟩, old, hold, hc⟩ := hi
    rw [Store.view_of_txs hws]
    simp only [part, Sum.inl.injEq, Sum.inr.injEq] at hlike hold
    exact consistent_delete h.consistent hlike (by rw [hc, ← hold]; rfl)

/-- Opening a transaction keeps the invariant. -/
theorem DbInv.begin {phase : ι → Phase} (h : DbInv s phase) (hi : s.store.txs i = none)
    (hs : s'.store = s.store.beginTx i) : DbInv s' (Function.update phase i .opened) := by
  refine h.of_step (i := i) (hs ▸ .begin hi) (hs ▸ h.consistent) ?_
  show s'.store.txs i = some []
  rw [hs, Store.beginTx_txs]

/-- Ending a transaction without its writes keeps the invariant. -/
theorem DbInv.abort {phase : ι → Phase} (h : DbInv s phase) (hs : s'.store = s.store.abort i) :
    DbInv s' (Function.update phase i .outside) := by
  refine h.of_step (i := i) (hs ▸ .abort) (hs ▸ h.consistent) ?_
  show s'.store.txs i = none
  rw [hs, Store.abort_txs]

/-- A write keeps the invariant if it takes `i` to where its next phase says. -/
theorem DbInv.write {phase : ι → Phase} (h : DbInv s phase) {w : Write} {ws : List Write}
    (hws : s.store.txs i = some ws) (hfree : s.store.Free i w.lock)
    (hs : s'.store = s.store.write layout i w) {φ : Phase}
    (hi : s'.store.txs i = some (ws ++ [w]) → Holds s' i φ) :
    DbInv s' (Function.update phase i φ) := by
  have hstep : Store.Step layout i s.store s'.store := by rw [hs]; exact .write w hfree
  refine h.of_step hstep (by rw [hs]; exact h.consistent) (hi ?_)
  rw [hs, Store.write_txs, hws, Option.getD_some]

/-- A statement that leaves the store alone keeps the invariant. -/
theorem DbInv.same {phase : ι → Phase} (h : DbInv s phase) (hs : s'.store = s.store) :
    DbInv s' (Function.update phase i (phase i)) := by
  refine h.of_step (i := i) (hs ▸ .read) (hs ▸ h.consistent) ?_
  exact (h.holds i).of_part h.held (by rw [hs]) fun ℓ _ => by rw [hs]

/-- Only an open transaction that has written nothing looks at a row or a count. -/
theorem Phase.opened_of_asks {φ : Phase} {q : DbOp} (h : φ.asks q)
    (hq : (∃ userId item, q = .selectExisting userId item) ∨ ∃ item, q = .selectCount item) :
    φ = .opened := by
  rcases hq with ⟨userId, item, rfl⟩ | ⟨item, rfl⟩
  · cases φ with
    | opened => rfl
    | _ => exact h.elim
  · cases φ with
    | opened => rfl
    | _ => exact h.elim

/-! ## The statements keep the invariant -/

theorem setTotalCount_some {item : Item} {c : I64} (hc : 0 ≤ c.val) :
    setTotalCount s i item (some c) =
      ({ s with store := s.store.write layout i (.setCount item c) }, .ok c) := by
  show (if c.val < 0 then _ else _) = _
  rw [if_neg (by omega)]

/-- The insert of an open transaction writes a row for a free key, or nothing. -/
theorem DbInv.insertLike (h : DbInv s phase) (hi : phase i = .opened) {now : DateTime}
    {order : List ℕ} {userId : Uuid} {item : Item} {r : DbOp.Ans (.insertLike userId item)}
    (hs : runStatement s i now order (.insertLike userId item) = some (s', r)) :
    DbInv s' (Function.update phase i ((phase i).next (.insertLike userId item) r)) ∧
      (phase i).Fits (.insertLike userId item) r := by
  have hopen := h.holds i
  rw [hi] at hopen
  simp only [runStatement] at hs
  split_ifs at hs with hfree
  split at hs
  · cases hs
    exact ⟨h.same rfl, fun name hr => by cases hr⟩
  · rename_i id hid
    split at hs
    · cases hs
      exact ⟨h.same rfl, fun name hr => by cases hr⟩
    · rename_i hfind
      cases hs
      have hnone : s.store.committed.find (userId, item) = none := by
        rw [← hfind, DbState.view, Store.view_of_txs hopen]; rfl
      have hkey : part (.like (userId, item)) s.store.committed = .inl [] := by
        simp only [part, Sum.inl.injEq]
        exact List.filter_eq_nil_iff.mpr (List.find?_eq_none.mp hnone)
      let row : LikesRow := ⟨id, userId, item.1, item.2, s.startedAt i⟩
      exact ⟨h.write (w := .insertLike row) hopen hfree rfl fun hws => ⟨row, rfl, hws, hkey⟩,
        fun name hr => by cases hr⟩

/-- The increment owed for an inserted row. -/
theorem DbInv.incrementCount (h : DbInv s phase) {key : LikeKey} (hi : phase i = .inserted key)
    {now : DateTime} {order : List ℕ} {item : Item} (hitem : key.2 = item)
    {r : DbOp.Ans (.incrementCount item)}
    (hs : runStatement s i now order (.incrementCount item) = some (s', r)) :
    DbInv s' (Function.update phase i ((phase i).next (.incrementCount item) r)) ∧
      (phase i).Fits (.incrementCount item) r := by
  subst hitem
  have hins := h.holds i
  rw [hi] at hins
  obtain ⟨row, rfl, hws, hlike⟩ := hins
  have hview := view_likeCounts hws (by simp) row.key.2
  have hwrite : ∀ c : I64, s.store.Free i (.count row.key.2) →
      c.val = (s.store.committed.totalCount row.key.2).val + 1 →
      DbInv { s with store := s.store.write layout i (.setCount row.key.2 c) }
        (Function.update phase i (.insertedCounted row.key c)) := by
    intro c hfree hc
    exact h.write (w := .setCount row.key.2 c) hws hfree rfl
      fun hws' => ⟨row, rfl, hws', hlike, _, rfl, hc⟩
  simp only [runStatement] at hs
  split_ifs at hs with hfree
  split at hs
  · rename_i hnone
    rw [setTotalCount_some (by simp)] at hs
    cases hs
    rw [hi]
    refine ⟨hwrite 1 hfree ?_, nofun⟩
    rw [Tables.totalCount, ← hview, hnone]; simp
  · rename_i c hsome
    have hc : 0 ≤ c.val := h.nonneg (hview ▸ hsome)
    cases hd : I64.ofInt? (c.val + 1) with
    | none =>
      rw [hd] at hs
      cases hs
      exact ⟨by rw [hi]; exact hi ▸ h.same rfl, nofun⟩
    | some d =>
      have hdv := I64.ofInt?_eq_some.mp hd
      rw [hd, setTotalCount_some (by omega)] at hs
      cases hs
      rw [hi]
      refine ⟨hwrite d hfree ?_, nofun⟩
      rw [Tables.totalCount, ← hview, hsome, hdv]; rfl

/-- The delete of an open transaction removes the one row of its key, or nothing. -/
theorem DbInv.deleteLike (h : DbInv s phase) (hi : phase i = .opened) {now : DateTime}
    {order : List ℕ} {userId : Uuid} {item : Item} {r : DbOp.Ans (.deleteLike userId item)}
    (hs : runStatement s i now order (.deleteLike userId item) = some (s', r)) :
    DbInv s' (Function.update phase i ((phase i).next (.deleteLike userId item) r)) ∧
      (phase i).Fits (.deleteLike userId item) r := by
  have hopen := h.holds i
  rw [hi] at hopen
  have hview : s.view i = s.store.committed := by
    rw [DbState.view, Store.view_of_txs hopen]; rfl
  have hone := h.consistent.unique (userId, item)
  simp only [runStatement, hview] at hs
  split at hs
  · cases hs
    exact ⟨h.same rfl, nofun⟩
  · rename_i hne
    split_ifs at hs with hfree
    cases hs
    refine ⟨?_, nofun⟩
    cases hrows : s.store.committed.likes.filter fun r => r.key = (userId, item) with
    | nil => exact absurd hrows hne
    | cons row rows =>
      have hnil : rows = [] := by
        rw [hrows, List.length_cons] at hone
        exact List.length_eq_zero_iff.mp (by omega)
      subst hnil
      have hlike : part (.like (userId, item)) s.store.committed = .inl [row] := by
        simp only [part, hrows]
      exact h.write (w := .deleteLike (userId, item)) hopen hfree rfl
        fun hws => ⟨hws, row, hlike⟩

/-- `GREATEST` changes nothing on a positive count. -/
theorem greatestPred_of_pos {c : I64} (hc : 1 ≤ c.val) :
    ∃ d, greatestPred c = some d ∧ d.val = c.val - 1 := by
  have hupper := c.upper
  let d : I64 := ⟨c.val - 1, by omega, by omega⟩
  have hd : I64.ofInt? (c.val - 1) = some d := I64.ofInt?_eq_some.mpr rfl
  refine ⟨d, ?_, rfl⟩
  rw [greatestPred, hd, Option.map_some, if_neg]
  show ¬ (c.val - 1 < 0)
  omega

/-- The `UPDATE` of a transaction that has deleted a row: it finds the count, which is
    positive, and subtracts one. -/
theorem DbInv.decrementCount (h : DbInv s phase) {key : LikeKey} (hi : phase i = .deleted key)
    {now : DateTime} {order : List ℕ} {item : Item} (hitem : key.2 = item)
    {r : DbOp.Ans (.decrementCount item)}
    (hs : runStatement s i now order (.decrementCount item) = some (s', r)) :
    DbInv s' (Function.update phase i ((phase i).next (.decrementCount item) r)) ∧
      ∃ old new, (s.view i).likeCounts item = some old ∧ r = .ok (some new) ∧
        new.val = old.val - 1 ∧ 0 ≤ new.val := by
  subst hitem
  have hdel := h.holds i
  rw [hi] at hdel
  obtain ⟨hws, row, hlike⟩ := hdel
  have hview := view_likeCounts hws (by simp) key.2
  obtain ⟨c, hc, hpos⟩ := h.pos_of_row hlike
  obtain ⟨d, hd, hdv⟩ := greatestPred_of_pos hpos
  simp only [runStatement] at hs
  rw [hview, hc] at hs
  simp only [hd, setTotalCount_some (s := s) (i := i) (c := d) (by omega)] at hs
  split_ifs at hs with hfree
  cases hs
  refine ⟨?_, c, d, by rw [hview, hc], rfl, hdv, by omega⟩
  rw [hi]
  refine h.write (w := .setCount key.2 d) hws hfree rfl fun hws' => ⟨hws', ⟨row, hlike⟩, _, rfl, ?_⟩
  show d.val + 1 = ((s.store.committed.likeCounts key.2).getD 0).val
  rw [hc, Option.getD_some]; omega

/-- Every statement that its phase allows keeps the invariant. -/
theorem DbInv.handle (h : DbInv s phase) {q : DbOp} (hask : (phase i).asks q) {x : DbChoice}
    {r : q.Ans} (hs : handle s i q x = some (s', r)) :
    DbInv s' (Function.update phase i ((phase i).next q r)) ∧ (phase i).Fits q r := by
  cases x with
  | fail message =>
    cases hs
    cases q with
    | commit => exact ⟨h.abort rfl, nofun⟩
    | rollback => exact ⟨h.abort rfl, nofun⟩
    | decrementCount item =>
      exact ⟨h.same rfl, ⟨nofun, nofun⟩⟩
    | _ => exact ⟨h.same rfl, nofun⟩
  | run now order =>
    have hs : runStatement s i now order q = some (s', r) := hs
    cases q with
    | begin =>
      cases hφ : phase i with
      | outside =>
        have hout := h.holds i
        rw [hφ] at hout
        cases hs
        exact ⟨h.begin hout rfl, nofun⟩
      | _ => rw [hφ] at hask; exact hask.elim
    | insertLike userId item =>
      cases hφ : phase i with
      | opened => exact hφ ▸ h.insertLike hφ hs
      | _ => rw [hφ] at hask; exact hask.elim
    | incrementCount item =>
      cases hφ : phase i with
      | inserted key => rw [hφ] at hask; exact hφ ▸ h.incrementCount hφ hask hs
      | _ => rw [hφ] at hask; exact hask.elim
    | deleteLike userId item =>
      cases hφ : phase i with
      | opened => exact hφ ▸ h.deleteLike hφ hs
      | _ => rw [hφ] at hask; exact hask.elim
    | decrementCount item =>
      cases hφ : phase i with
      | deleted key =>
        rw [hφ] at hask
        obtain ⟨hinv, old, new, -, rfl, -⟩ := h.decrementCount hφ hask hs
        exact ⟨hφ ▸ hinv, ⟨nofun, nofun⟩⟩
      | _ => rw [hφ] at hask; exact hask.elim
    | commit =>
      cases hs
      refine ⟨h.of_step .commit (consistent_commit h hask) ?_, nofun⟩
      exact Store.commit_txs
    | rollback => cases hs; exact ⟨h.abort rfl, nofun⟩
    | _ => cases hs; exact ⟨h.same rfl, nofun⟩

/-! ## What a statement does to the store -/

/-- `setTotalCount` writes a count, or nothing. -/
theorem setTotalCount_store (s : DbState ι) (i : ι) (item : Item) (v : Option I64) :
    (setTotalCount s i item v).1.store = s.store ∨
      ∃ c, (setTotalCount s i item v).1.store = s.store.write layout i (.setCount item c) := by
  unfold setTotalCount
  split
  · exact Or.inl rfl
  · split_ifs
    · exact Or.inl rfl
    · exact Or.inr ⟨_, rfl⟩

/-- The row that a statement has inserted. -/
def insertedRow : (q : DbOp) → q.Ans → Option LikeRow
  | .insertLike _ _, .ok row => row
  | _, _ => none

/-- A statement leaves the store alone, begins a transaction, ends it with or without its writes,
    or adds one write to it; it inserts no row but the one that it returns. -/
theorem store_of_handle {q : DbOp} {x : DbChoice} {r : q.Ans}
    (h : Postgres.handle s i q x = some (s', r)) :
    (insertedRow q r = none ∧ (s'.store = s.store ∨ s'.store = s.store.beginTx i ∨
      s'.store = s.store.abort i ∨ (q = .commit ∧ s'.store = s.store.commit layout i) ∨
      ∃ w, s'.store = s.store.write layout i w ∧ ∀ row, w ≠ .insertLike row)) ∨
    ∃ userId item row, q = .insertLike userId item ∧ insertedRow q r = some row.toLikeRow ∧
      s'.store = s.store.write layout i (.insertLike row) := by
  cases x with
  | fail message =>
    cases h
    refine Or.inl ?_
    cases q with
    | commit => exact ⟨rfl, Or.inr (Or.inr (Or.inl rfl))⟩
    | rollback => exact ⟨rfl, Or.inr (Or.inr (Or.inl rfl))⟩
    | _ => exact ⟨rfl, Or.inl rfl⟩
  | run now order =>
    have h : runStatement s i now order q = some (s', r) := h
    have hcount : ∀ item v, (setTotalCount s i item v).1 = s' → insertedRow q r = none →
        insertedRow q r = none ∧ (s'.store = s.store ∨ s'.store = s.store.beginTx i ∨
          s'.store = s.store.abort i ∨ (q = .commit ∧ s'.store = s.store.commit layout i) ∨
          ∃ w, s'.store = s.store.write layout i w ∧ ∀ row, w ≠ .insertLike row) := by
      rintro item v rfl hnone
      rcases setTotalCount_store s i item v with hsame | ⟨c, hwrite⟩
      · exact ⟨hnone, Or.inl hsame⟩
      · exact ⟨hnone, Or.inr (Or.inr (Or.inr (Or.inr ⟨_, hwrite, fun row hrow => by cases hrow⟩)))⟩
    cases q with
    | begin => cases h; exact Or.inl ⟨rfl, Or.inr (Or.inl rfl)⟩
    | commit => cases h; exact Or.inl ⟨rfl, Or.inr (Or.inr (Or.inr (Or.inl ⟨rfl, rfl⟩)))⟩
    | rollback => cases h; exact Or.inl ⟨rfl, Or.inr (Or.inr (Or.inl rfl))⟩
    | insertLike userId item =>
      simp only [runStatement] at h
      split_ifs at h
      split at h
      · cases h; exact Or.inl ⟨rfl, Or.inl rfl⟩
      · split at h
        · cases h; exact Or.inl ⟨rfl, Or.inl rfl⟩
        · cases h
          exact Or.inr ⟨userId, item, _, rfl, rfl, rfl⟩
    | incrementCount item =>
      simp only [runStatement] at h
      split_ifs at h
      split at h
      · exact Or.inl (hcount item _ (congrArg Prod.fst (Option.some.inj h)) rfl)
      · exact Or.inl (hcount item _ (congrArg Prod.fst (Option.some.inj h)) rfl)
    | deleteLike userId item =>
      simp only [runStatement] at h
      split at h
      · cases h; exact Or.inl ⟨rfl, Or.inl rfl⟩
      · split_ifs at h
        cases h
        refine Or.inl ⟨rfl, Or.inr (Or.inr (Or.inr (Or.inr ⟨_, rfl, fun row hrow => ?_⟩)))⟩
        cases hrow
    | decrementCount item =>
      simp only [runStatement] at h
      split at h
      · cases h; exact Or.inl ⟨rfl, Or.inl rfl⟩
      · split_ifs at h
        exact Or.inl (hcount item _ (congrArg Prod.fst (Option.some.inj h)) rfl)
    | _ => cases h; exact Or.inl ⟨rfl, Or.inl rfl⟩

/-- Only a commit changes the committed tables. -/
theorem committed_of_handle {q : DbOp} {x : DbChoice} {r : q.Ans}
    (h : Postgres.handle s i q x = some (s', r)) :
    s'.store.committed = s.store.committed ∨ q = .commit ∧ s'.store.committed = s.view i := by
  rcases store_of_handle h with ⟨-, hs | hs | hs | ⟨rfl, hs⟩ | ⟨w, hs, -⟩⟩ | ⟨_, _, _, -, -, hs⟩
  all_goals rw [hs]
  all_goals first | exact Or.inl rfl | exact Or.inr ⟨rfl, rfl⟩

/-- A statement changes no other transaction. -/
theorem txs_of_handle {q : DbOp} {x : DbChoice} {r : q.Ans}
    (h : Postgres.handle s i q x = some (s', r)) (hj : j ≠ i) : s'.store.txs j = s.store.txs j := by
  rcases store_of_handle h with ⟨-, hs | hs | hs | ⟨-, hs⟩ | ⟨w, hs, -⟩⟩ | ⟨_, _, _, -, -, hs⟩
  all_goals rw [hs]
  · exact Store.beginTx_txs_ne hj
  · exact Store.abort_txs_ne hj
  · exact Store.commit_txs_ne hj
  · exact Store.write_txs_ne hj
  · exact Store.write_txs_ne hj

end Invariant

end SocialApi.Repositories
