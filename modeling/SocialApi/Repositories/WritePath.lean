import SocialApi.Repositories.LikeCounts

/-!
# Concurrent `insert_like` and `delete_like` transactions

Any number of `insert_like` and `delete_like` calls over one database, interleaved
statement by statement; every statement may fail, and a call may be abandoned
between two statements (its transaction is then rolled back).

Results:
* `writePath_countsAgree`: in every reachable state `total_count` is the number of
  rows for every item, no user has two rows for an item, the `UPDATE` of
  `delete_like` finds its row and is not clamped, and the check constraint on
  `total_count` is never violated.
-/

namespace SocialApi.Repositories

open SocialApi.Concurrent SocialApi.Postgres

/-! ## The programs follow the phases -/

section Obeys

variable {α : Type} {Q : Phase → Except SqlxError α → Prop}

/-- A failed statement inside a transaction ends in a rollback. -/
theorem obeys_inTx {φ : Phase} {q : DbOp} {f : q.Rows → Repo α} (hq : φ.asks q)
    (hok : ∀ a, φ.Fits q (.ok a) → phases.Obeys Q (φ.next q (.ok a)) (f a))
    (hroll : ∀ e, (φ.next q (.error e)).asks .rollback)
    (herr : ∀ e, Q .outside (.error e)) : phases.Obeys Q φ (inTx q f) := by
  unfold inTx
  rw [Protocol.obeys_bind]
  refine ⟨hq, ?_⟩
  rintro (e | a) φ' ⟨rfl, hfit⟩
  · show phases.asks _ _ ∧ _
    refine ⟨hroll e, ?_⟩
    rintro r φ'' ⟨rfl, -⟩
    exact herr e
  · exact hok a hfit

/-- A failed statement outside a transaction returns the error. -/
theorem obeys_attempt {φ : Phase} {q : DbOp} {f : q.Rows → Repo α} (hq : φ.asks q)
    (hok : ∀ a, φ.Fits q (.ok a) → phases.Obeys Q (φ.next q (.ok a)) (f a))
    (herr : ∀ e, Q (φ.next q (.error e)) (.error e)) : phases.Obeys Q φ (attempt q f) := by
  unfold attempt
  rw [Protocol.obeys_bind]
  refine ⟨hq, ?_⟩
  rintro (e | a) φ' ⟨rfl, hfit⟩
  · exact herr e
  · exact hok a hfit

/-- The call is over and its transaction with it. -/
def Closed (φ : Phase) (_ : α) : Prop := φ = .outside

theorem insertLike_obeys (userId : Uuid) (item : Item) :
    phases.Obeys Closed .outside (insertLike userId item) := by
  unfold insertLike
  refine obeys_attempt trivial (fun _ _ => ?_) fun _ => rfl
  refine obeys_inTx trivial (fun row _ => ?_) (fun _ => trivial) fun _ => rfl
  cases row with
  | some likeRow =>
    refine obeys_inTx rfl (fun count _ => ?_) (fun _ => trivial) fun _ => rfl
    exact obeys_attempt trivial (fun _ _ => rfl) fun _ => rfl
  | none =>
    refine obeys_inTx trivial (fun existing _ => ?_) (fun _ => trivial) fun _ => rfl
    refine obeys_attempt trivial (fun _ _ => ?_) fun _ => rfl
    cases existing with
    | some found => exact rfl
    | none => exact obeys_attempt trivial (fun _ _ => rfl) fun _ => rfl

theorem deleteLike_obeys (userId : Uuid) (item : Item) :
    phases.Obeys Closed .outside (deleteLike userId item) := by
  unfold deleteLike
  refine obeys_attempt trivial (fun _ _ => ?_) fun _ => rfl
  refine obeys_inTx trivial (fun rowsAffected _ => ?_) (fun _ => trivial) fun _ => rfl
  split_ifs with hn
  · simp only [Phase.next, if_pos hn]
    refine obeys_inTx rfl (fun count hfit => ?_) (fun _ => trivial) fun _ => rfl
    cases count with
    | none => exact absurd rfl hfit.1
    | some c => exact obeys_attempt trivial (fun _ _ => rfl) fun _ => rfl
  · simp only [Phase.next, if_neg hn]
    refine obeys_inTx trivial (fun count _ => ?_) (fun _ => trivial) fun _ => rfl
    exact obeys_attempt trivial (fun _ _ => rfl) fun _ => rfl

end Obeys

/-! ## The pool of write calls -/

/-- The two calls that change the tables. -/
inductive WriteCall where
  | insertLike (userId : Uuid) (item : Item)
  | deleteLike (userId : Uuid) (item : Item)
  deriving DecidableEq, Repr

/-- What the two calls return. -/
abbrev WriteResult := InsertLikeResult ⊕ DeleteLikeResult

/-- The program of a call. -/
def WriteCall.prog : WriteCall → Repo WriteResult
  | insertLike userId item => (Repositories.insertLike userId item).bind fun r => .ret (r.map .inl)
  | deleteLike userId item => (Repositories.deleteLike userId item).bind fun r => .ret (r.map .inr)

theorem WriteCall.obeys (k : WriteCall) : phases.Obeys Closed .outside k.prog := by
  cases k with
  | insertLike userId item => exact (insertLike_obeys userId item).bind fun _ _ h => h
  | deleteLike userId item => exact (deleteLike_obeys userId item).bind fun _ _ h => h

section Pool

variable {ι : Type}

theorem dbInv_ofTables {s : DbState ι} {t : Tables} (ht : Consistent t)
    (hs : s.store = .ofTables t) : DbInv s fun _ => .outside where
  held := hs ▸ Store.held_ofTables t
  consistent := hs ▸ ht
  holds i := by show s.store.txs i = none; rw [hs]; rfl

variable [DecidableEq ι]

/-- Write calls over a database that starts with consistent tables and no open
    transaction. A call that is dropped has its transaction rolled back. -/
def writePath : Pool ι (DbState ι) WriteCall DbOp DbOp.Ans (Except SqlxError WriteResult)
    DbChoice where
  init s := ∃ t, Consistent t ∧ s.store = .ofTables t
  prog := WriteCall.prog
  start s _ _ := some s
  handle := Postgres.handle
  drop s i := some { s with store := s.store.abort i }
  env _ _ := none

/-- A configuration of write calls. -/
abbrev WriteConfig (ι : Type) :=
  Configuration ι (DbState ι) WriteCall DbOp DbOp.Ans (Except SqlxError WriteResult)

/-- The phase of every call; a call that is not running has no transaction. -/
def phaseOf (γ : ι → Option Phase) (i : ι) : Phase := (γ i).getD .outside

theorem phaseOf_update (γ : ι → Option Phase) (i : ι) (φ : Phase) :
    phaseOf (Function.update γ i (some φ)) = Function.update (phaseOf γ) i φ := by
  funext j
  by_cases hj : j = i
  · subst hj; simp [phaseOf]
  · simp [phaseOf, Function.update_of_ne hj]

theorem phaseOf_update_none (γ : ι → Option Phase) (i : ι) :
    phaseOf (Function.update γ i none) = Function.update (phaseOf γ) i .outside := by
  funext j
  by_cases hj : j = i
  · subst hj; simp [phaseOf]
  · simp [phaseOf, Function.update_of_ne hj]

/-- The phases of calls whose ghost states contain them. -/
theorem phaseOf_map_update {G : Type} (f : G → Phase) (γ : ι → Option G) (i : ι) (g : Option G) :
    (phaseOf fun j => (Function.update γ i g j).map f) =
      Function.update (phaseOf fun j => (γ j).map f) i ((g.map f).getD .outside) := by
  funext j
  by_cases hj : j = i
  · subst hj; simp [phaseOf]
  · simp [phaseOf, Function.update_of_ne hj]

theorem writePath_sound :
    Pool.Sound (writePath (ι := ι)) phases (fun _ => Closed) (fun _ => .outside)
      (fun s γ => DbInv s (phaseOf γ)) fun _ _ => True where
  init s hs := by
    obtain ⟨t, ht, hstore⟩ := hs
    exact dbInv_ofTables ht hstore
  prog := WriteCall.obeys
  start c i k s γ _ h hγ hs := by
    cases hs
    rw [phaseOf_update, show Phase.outside = phaseOf γ i by simp [phaseOf, hγ],
      Function.update_eq_self]
    exact h
  handle c i x k e f s r γ φ _ h _ _ hγ hask hs := by
    have hφ : phaseOf γ i = φ := by simp [phaseOf, hγ]
    obtain ⟨hinv, hfit⟩ := h.handle (by rw [hφ]; exact hask) hs
    rw [hφ] at hinv hfit
    exact ⟨_, ⟨rfl, hfit⟩, by rw [phaseOf_update]; exact hinv⟩
  ret s i k γ φ a h hγ ha := by
    rw [phaseOf_update_none, ← (show φ = .outside from ha),
      show φ = phaseOf γ i by simp [phaseOf, hγ], Function.update_eq_self]
    exact h
  drop c i k p s γ φ _ h _ _ hγ hs := by
    cases hs
    rw [phaseOf_update_none]
    exact h.abort rfl
  env c x s γ _ _ hs := by cases hs

/-! ## What the tables and their constraints guarantee -/

/-- The committed tables agree, and so do the statements that are about to run. -/
structure CountsAgree (c : Configuration ι (DbState ι) WriteCall DbOp DbOp.Ans
    (Except SqlxError WriteResult)) : Prop where
  /-- `total_count` is the number of rows. -/
  count : ∀ item, (c.shared.store.committed.totalCount item).val =
    (c.shared.store.committed.likesOf item).length
  /-- A user has at most one row for an item. -/
  unique : ∀ key, (c.shared.store.committed.likes.filter fun r => r.key = key).length ≤ 1
  /-- No stored count is negative. -/
  nonneg : ∀ item n, c.shared.store.committed.likeCounts item = some n → 0 ≤ n.val
  /-- The `UPDATE` of `delete_like`, when it runs, finds the row and returns one less than
      before: `GREATEST(total_count - 1, 0)` is `total_count - 1`. -/
  decrement : ∀ i k item f now order s' r, c.calls i = .running k (.op (.decrementCount item) f) →
    handle c.shared i (.decrementCount item) (.run now order) = some (s', r) →
    ∃ old new, (c.shared.view i).likeCounts item = some old ∧ r = .ok (some new) ∧
      new.val = old.val - 1 ∧ 0 ≤ new.val
  /-- No statement violates a check constraint. -/
  check : ∀ i k q f x s' r name, c.calls i = .running k (.op q f) →
    handle c.shared i q x = some (s', r) → r ≠ .error (.checkViolation name)

/-- The counts and the constraints hold in every reachable state. -/
theorem writePath_countsAgree {c : Configuration ι (DbState ι) WriteCall DbOp DbOp.Ans
    (Except SqlxError WriteResult)} (hc : writePath.machine.Reachable c) : CountsAgree c := by
  obtain ⟨γ, h, hF⟩ := writePath_sound.reachable hc
  have hrun : ∀ i k q f, c.calls i = .running k (.op q f) → (phaseOf γ i).asks q := by
    intro i k q f hi
    have hFi := hF i
    rw [hi] at hFi
    obtain ⟨φ, hγ, hobeys⟩ := hFi
    have hφ : phaseOf γ i = φ := by simp [phaseOf, hγ]
    rw [hφ]
    exact hobeys.1
  refine ⟨h.consistent.count, h.consistent.unique, fun _ _ => h.nonneg, ?_, ?_⟩
  · intro i k item f now order s' r hi hs
    have hask := hrun i k _ f hi
    cases hφ : phaseOf γ i with
    | deleted key =>
      rw [hφ] at hask
      have hs : runStatement c.shared i now order (.decrementCount item) = some (s', r) := hs
      exact (h.decrementCount hφ hask hs).2
    | _ => rw [hφ] at hask; exact hask.elim
  · intro i k q f x s' r name hi hs
    have hfit := (h.handle (hrun i k q f hi) hs).2
    cases q with
    | decrementCount item => exact hfit.2 name
    | _ => exact hfit name

/-- Two likes of one item whose statements interleave. -/
def crossingLikes : List (Act ℕ WriteCall DbChoice) :=
  let go : DbChoice := .run .epoch []
  [.start 0 (.insertLike 1 ("post", 7)), .start 1 (.insertLike 2 ("post", 7)),
    .step 0 go, .step 0 go, .step 1 go, .step 1 go, .step 0 go, .step 0 go, .step 1 go, .step 1 go]

/-- The empty tables of a new database. -/
def newDatabase : DbState ℕ where
  store := .ofTables ⟨[], fun _ => none⟩
  startedAt _ := .epoch
  nextId := 1

theorem consistent_empty : Consistent ⟨[], fun _ => none⟩ :=
  ⟨fun _ => rfl, fun _ => by simp⟩

/-- After the two crossing likes the count of the item is 2, and everything agrees. -/
theorem writePath_countsAgree_crossing :
    ∃ c, writePath.machine.run ⟨newDatabase, fun _ => .idle⟩ crossingLikes = some c ∧
      (c.shared.store.committed.totalCount ("post", 7)).val = 2 ∧ CountsAgree c := by
  have hcount : (writePath.machine.run ⟨newDatabase, fun _ => .idle⟩ crossingLikes).map
      (fun c => (c.shared.store.committed.totalCount ("post", 7)).val) = some 2 := by decide
  obtain ⟨c, hrun, htwo⟩ := Option.map_eq_some_iff.mp hcount
  refine ⟨c, hrun, htwo, writePath_countsAgree (.run (.initial ?_) hrun)⟩
  exact ⟨⟨_, consistent_empty, rfl⟩, fun _ => rfl⟩

end Pool

end SocialApi.Repositories
