import Mathlib

/-!
# Transactions at READ COMMITTED

A store of tables `T` that transactions change by writes `W`. A write locks one
`L` (a row, a unique key) until its transaction ends; a transaction sees the
committed tables with its own writes on top, applied in order, and its writes
reach the committed tables all at once when it commits and not at all when it
aborts. Nothing here depends on what the tables are.

`Layout.part ℓ` is the part of the tables that the lock `ℓ` protects: a write
changes only the part of its own lock (`Layout.frame`). `Store.part_commit` is
what a lock is good for: the committed part of a lock that another transaction
holds does not change.
-/

namespace SocialApi.Concurrent

/-- How writes change tables, what they lock, and the part of the tables a lock protects. -/
structure Layout (T W L V : Type) where
  apply : W → T → T
  lock : W → L
  part : L → T → V
  frame : ∀ w t ℓ, lock w ≠ ℓ → part ℓ (apply w t) = part ℓ t

/-- The committed tables, the writes of every open transaction, and the holder of each lock. -/
structure Store (ι T W L : Type) where
  committed : T
  txs : ι → Option (List W)
  owner : L → Option ι

namespace Store

variable {ι T W L V : Type}

/-- A store with the tables `t` and no open transaction. -/
def ofTables (t : T) : Store ι T W L := ⟨t, fun _ => none, fun _ => none⟩

/-- The tables after the writes `ws`, the first of them first. -/
def applyAll (Λ : Layout T W L V) (ws : List W) (t : T) : T := ws.foldl (fun t w => Λ.apply w t) t

/-- What transaction `i` sees. -/
def view (Λ : Layout T W L V) (s : Store ι T W L) (i : ι) : T :=
  applyAll Λ ((s.txs i).getD []) s.committed

/-- No other transaction holds the lock. -/
def Free (s : Store ι T W L) (i : ι) (ℓ : L) : Prop := ∀ j, s.owner ℓ = some j → j = i

/-- A lock is held by exactly the open transaction that has a write with that lock. -/
def Held (Λ : Layout T W L V) (s : Store ι T W L) : Prop :=
  ∀ ℓ i, s.owner ℓ = some i ↔ ∃ ws, s.txs i = some ws ∧ ℓ ∈ ws.map Λ.lock

variable {Λ : Layout T W L V} {s : Store ι T W L} {i j : ι} {ℓ : L}

theorem view_of_txs {ws : List W} (h : s.txs i = some ws) :
    s.view Λ i = applyAll Λ ws s.committed := by
  simp [view, h]

/-! ## What a lock protects -/

theorem held_ofTables (t : T) : (ofTables t : Store ι T W L).Held Λ := by
  intro ℓ i; simp [ofTables]

/-- A lock among the writes of `i` is `i`'s. -/
theorem Held.owner_of_mem (h : s.Held Λ) {ws : List W} (hi : s.txs i = some ws) {w : W}
    (hw : w ∈ ws) : s.owner (Λ.lock w) = some i :=
  (h _ _).mpr ⟨ws, hi, List.mem_map.mpr ⟨w, hw, rfl⟩⟩

theorem part_applyAll {ws : List W} (t : T) (h : ℓ ∉ ws.map Λ.lock) :
    Λ.part ℓ (applyAll Λ ws t) = Λ.part ℓ t := by
  induction ws generalizing t with
  | nil => rfl
  | cons w ws ih =>
    simp only [List.map_cons, List.mem_cons, not_or] at h
    rw [applyAll, List.foldl_cons]
    exact (ih _ h.2).trans (Λ.frame w t ℓ (Ne.symm h.1))

/-- A transaction sees the committed part of every lock it does not hold. -/
theorem part_view (h : s.Held Λ) (ho : s.owner ℓ ≠ some i) :
    Λ.part ℓ (s.view Λ i) = Λ.part ℓ s.committed := by
  unfold view
  cases hi : s.txs i with
  | none => rfl
  | some ws => exact part_applyAll _ fun hm => ho ((h ℓ i).mpr ⟨ws, hi, hm⟩)

/-! ## The beginning and the end of a transaction -/

variable [DecidableEq ι]

instance (s : Store ι T W L) (i : ι) (ℓ : L) : Decidable (s.Free i ℓ) :=
  match h : s.owner ℓ with
  | none => isTrue fun j hj => by rw [h] at hj; cases hj
  | some k =>
    if hk : k = i then isTrue fun j hj => by rw [h] at hj; cases hj; exact hk
    else isFalse fun hf => hk (hf k h)

def beginTx (s : Store ι T W L) (i : ι) : Store ι T W L :=
  { s with txs := Function.update s.txs i (some []) }

/-- The end of transaction `i` without its writes. -/
def abort (s : Store ι T W L) (i : ι) : Store ι T W L :=
  { s with txs := Function.update s.txs i none,
           owner := fun ℓ => if s.owner ℓ = some i then none else s.owner ℓ }

/-- The end of transaction `i` with its writes. -/
def commit (Λ : Layout T W L V) (s : Store ι T W L) (i : ι) : Store ι T W L :=
  { s.abort i with committed := s.view Λ i }

@[simp] theorem beginTx_committed : (s.beginTx i).committed = s.committed := rfl
@[simp] theorem abort_committed : (s.abort i).committed = s.committed := rfl
@[simp] theorem commit_committed : (s.commit Λ i).committed = s.view Λ i := rfl

theorem beginTx_txs_ne (h : j ≠ i) : (s.beginTx i).txs j = s.txs j := Function.update_of_ne h _ _
theorem abort_txs_ne (h : j ≠ i) : (s.abort i).txs j = s.txs j := Function.update_of_ne h _ _
theorem commit_txs_ne (h : j ≠ i) : (s.commit Λ i).txs j = s.txs j := abort_txs_ne h

@[simp] theorem beginTx_txs : (s.beginTx i).txs i = some [] := Function.update_self _ _ _
@[simp] theorem abort_txs : (s.abort i).txs i = none := Function.update_self _ _ _
@[simp] theorem commit_txs : (s.commit Λ i).txs i = none := abort_txs

theorem Held.beginTx (h : s.Held Λ) (hi : s.txs i = none) : (s.beginTx i).Held Λ := by
  intro ℓ j
  show s.owner ℓ = some j ↔ _
  rw [h ℓ j]
  by_cases hj : j = i
  · subst hj; simp [hi]
  · rw [beginTx_txs_ne hj]

theorem Held.abort (h : s.Held Λ) : (s.abort i).Held Λ := by
  intro ℓ j
  show (if s.owner ℓ = some i then none else s.owner ℓ) = some j ↔ _
  by_cases hj : j = i
  · subst hj
    simp only [abort_txs, reduceCtorEq, false_and, exists_false, iff_false]
    split_ifs with ho
    · exact fun hc => by cases hc
    · exact ho
  · rw [abort_txs_ne hj, ← h ℓ j]
    split_ifs with ho
    · rw [ho]
      constructor
      · rintro ⟨⟩
      · rintro ⟨⟩; exact absurd rfl hj
    · exact Iff.rfl

theorem Held.commit (h : s.Held Λ) : (s.commit Λ i).Held Λ := fun ℓ j => h.abort (i := i) ℓ j

/-- Committing does not change the part of a lock that the transaction does not hold. -/
theorem part_commit (h : s.Held Λ) (ho : s.owner ℓ ≠ some i) :
    Λ.part ℓ (s.commit Λ i).committed = Λ.part ℓ s.committed :=
  part_view h ho

/-! ## Writes -/

variable [DecidableEq L]

/-- One more write of transaction `i`, which takes its lock. -/
def write (Λ : Layout T W L V) (s : Store ι T W L) (i : ι) (w : W) : Store ι T W L :=
  { s with txs := Function.update s.txs i (some ((s.txs i).getD [] ++ [w])),
           owner := Function.update s.owner (Λ.lock w) (some i) }

@[simp] theorem write_committed {w : W} : (s.write Λ i w).committed = s.committed := rfl

theorem write_txs_ne {w : W} (h : j ≠ i) : (s.write Λ i w).txs j = s.txs j :=
  Function.update_of_ne h _ _

@[simp] theorem write_txs {w : W} : (s.write Λ i w).txs i = some ((s.txs i).getD [] ++ [w]) :=
  Function.update_self _ _ _

theorem Held.write (h : s.Held Λ) {w : W} (hf : s.Free i (Λ.lock w)) :
    (s.write Λ i w).Held Λ := by
  intro ℓ j
  show Function.update s.owner (Λ.lock w) (some i) ℓ = some j ↔ _
  by_cases hj : j = i
  · subst hj
    by_cases hℓ : ℓ = Λ.lock w
    · subst hℓ; simp
    · have hw : Λ.lock w ≠ ℓ := fun he => hℓ he.symm
      rw [Function.update_of_ne hℓ, h ℓ j]
      cases hi : s.txs j <;> simp [hi, hw]
  · rw [write_txs_ne hj]
    by_cases hℓ : ℓ = Λ.lock w
    · subst hℓ
      rw [Function.update_self, ← h]
      constructor
      · rintro ⟨⟩; exact absurd rfl hj
      · intro ho; exact absurd (hf j ho) hj
    · rw [Function.update_of_ne hℓ, h ℓ j]

/-! ## Steps of one transaction -/

/-- What one operation of transaction `i` can do to the store. -/
inductive Step (Λ : Layout T W L V) (i : ι) (s : Store ι T W L) : Store ι T W L → Prop
  | read : Step Λ i s s
  | begin (h : s.txs i = none) : Step Λ i s (s.beginTx i)
  | write (w : W) (h : s.Free i (Λ.lock w)) : Step Λ i s (s.write Λ i w)
  | abort : Step Λ i s (s.abort i)
  | commit : Step Λ i s (s.commit Λ i)

variable {s' : Store ι T W L}

theorem Step.held (hs : Step Λ i s s') (h : s.Held Λ) : s'.Held Λ := by
  cases hs with
  | read => exact h
  | begin hi => exact h.beginTx hi
  | write w hf => exact h.write hf
  | abort => exact h.abort
  | commit => exact h.commit

/-- A transaction's writes are its own. -/
theorem Step.txs_ne (hs : Step Λ i s s') (hj : j ≠ i) : s'.txs j = s.txs j := by
  cases hs with
  | read => rfl
  | begin hi => exact beginTx_txs_ne hj
  | write w hf => exact write_txs_ne hj
  | abort => exact abort_txs_ne hj
  | commit => exact commit_txs_ne hj

/-- What a lock protects stays as it is while another transaction holds the lock. -/
theorem Step.part_of_owner (hs : Step Λ i s s') (h : s.Held Λ) (ho : s.owner ℓ = some j)
    (hj : j ≠ i) : Λ.part ℓ s'.committed = Λ.part ℓ s.committed := by
  cases hs with
  | read => rfl
  | begin hi => rfl
  | write w hf => rfl
  | abort => rfl
  | commit =>
    refine part_commit h fun hi => hj ?_
    rw [ho] at hi
    exact Option.some_inj.mp hi

end Store

end SocialApi.Concurrent
