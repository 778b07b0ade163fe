import SocialApi.Concurrent.LockOrder
import SocialApi.Repositories.WritePath

/-!
# The write path does not deadlock

Any number of `insert_like` and `delete_like` transactions. A statement that writes a row
or a key which another open transaction has written waits until that transaction has
ended; a plain `SELECT` never waits. Both kinds of transaction first lock a key of
`likes` and then the row of its item in `like_counts`, and end after that.

* `runStatement_none_iff`: a statement waits exactly for the holder of its lock.
* `writePath_noDeadlock`: in every reachable state no transactions wait for each other
  in a circle, and whatever transaction is unfinished, it or one it waits for can take
  its next step.
-/

namespace SocialApi.Repositories

open SocialApi.Concurrent SocialApi.Postgres

variable {ι : Type}

/-- The lock that a statement of call `i` takes; a `DELETE` or `UPDATE` that finds no row
    takes none. -/
def lockOf (s : DbState ι) (i : ι) : DbOp → Option Lock
  | .insertLike userId item => some (.like (userId, item))
  | .incrementCount item => some (.count item)
  | .deleteLike userId item =>
    if (s.view i).likes.filter (fun r => r.key = (userId, item)) = [] then none
    else some (.like (userId, item))
  | .decrementCount item => ((s.view i).likeCounts item).map fun _ => .count item
  | _ => none

/-- The lock that the next statement of a call takes. -/
def wants (c : WriteConfig ι) (i : ι) : Option Lock :=
  match c.calls i with
  | .running _ (.op q _) => lockOf c.shared i q
  | _ => none

theorem not_free_iff {s : Store ι Tables Write Lock} {i : ι} {ℓ : Lock} :
    ¬ s.Free i ℓ ↔ ∃ j, s.owner ℓ = some j ∧ j ≠ i := by
  unfold Store.Free
  push Not
  rfl

/-- A statement waits exactly while another transaction holds its lock. -/
theorem runStatement_none_iff [DecidableEq ι] {s : DbState ι} {i : ι} {now : DateTime}
    {order : List ℕ} {q : DbOp} :
    runStatement s i now order q = none ↔
      ∃ ℓ j, lockOf s i q = some ℓ ∧ s.store.owner ℓ = some j ∧ j ≠ i := by
  have hlock : ∀ ℓ, (∃ ℓ' j, some ℓ = some ℓ' ∧ s.store.owner ℓ' = some j ∧ j ≠ i) ↔
      ¬ s.store.Free i ℓ := by
    intro ℓ
    rw [not_free_iff]
    constructor
    · rintro ⟨ℓ', j, hℓ, hj⟩
      cases hℓ
      exact ⟨j, hj⟩
    · rintro ⟨j, hj⟩
      exact ⟨ℓ, j, rfl, hj⟩
  have hnone : ¬ ∃ ℓ' j, (none : Option Lock) = some ℓ' ∧ s.store.owner ℓ' = some j ∧ j ≠ i := by
    rintro ⟨ℓ', j, hℓ, -⟩
    cases hℓ
  cases q with
  | insertLike userId item =>
    show _ ↔ ∃ ℓ' j, some (Lock.like (userId, item)) = some ℓ' ∧ _
    rw [hlock]
    simp only [runStatement]
    split_ifs with hfree
    · split
      · simp [hfree]
      · split <;> simp [hfree]
    · simp [hfree]
  | incrementCount item =>
    show _ ↔ ∃ ℓ' j, some (Lock.count item) = some ℓ' ∧ _
    rw [hlock]
    simp only [runStatement]
    split_ifs with hfree
    · split <;> simp [hfree]
    · simp [hfree]
  | deleteLike userId item =>
    simp only [runStatement, lockOf]
    split
    · rename_i hnil
      rw [if_pos hnil]
      simp
    · rename_i hne
      rw [if_neg hne, hlock]
      split_ifs with hfree
      · simp [hfree]
      · simp [hfree]
  | decrementCount item =>
    simp only [runStatement, lockOf]
    split
    · rename_i hcount
      rw [hcount]
      simp
    · rename_i c hcount
      rw [hcount, Option.map_some, hlock]
      split_ifs with hfree
      · simp [hfree]
      · simp [hfree]
  | _ =>
    refine iff_of_false ?_ hnone
    exact Option.some_ne_none _

/-! ## The order of the locks -/

/-- Keys of `likes` before rows of `like_counts`. -/
def rank : Lock → ℕ
  | .like _ => 0
  | .count _ => 1

/-- What the statement of a phase locks. -/
theorem rank_of_asks {φ : Phase} {s : DbState ι} {i : ι} {q : DbOp} {ℓ : Lock} (hask : φ.asks q)
    (hlock : lockOf s i q = some ℓ) :
    φ = .opened ∨ rank ℓ = 1 ∧ ((∃ key, φ = .inserted key) ∨ ∃ key, φ = .deleted key) := by
  cases q with
  | insertLike userId item =>
    cases φ with
    | opened => exact Or.inl rfl
    | _ => exact hask.elim
  | deleteLike userId item =>
    cases φ with
    | opened => exact Or.inl rfl
    | _ => exact hask.elim
  | incrementCount item =>
    cases φ with
    | inserted key =>
      cases hlock
      exact Or.inr ⟨rfl, Or.inl ⟨key, rfl⟩⟩
    | _ => exact hask.elim
  | decrementCount item =>
    cases φ with
    | deleted key =>
      obtain ⟨c, -, rfl⟩ := Option.map_eq_some_iff.mp hlock
      exact Or.inr ⟨rfl, Or.inr ⟨key, rfl⟩⟩
    | _ => exact hask.elim
  | _ => cases hlock

/-- An open transaction that is about to lock a row of `like_counts` holds a key of `likes`
    only, and one that is about to lock a key of `likes` holds nothing. -/
theorem rank_lt_of_owner {s : DbState ι} {phase : ι → Phase} (h : DbInv s phase) {i : ι} {q : DbOp}
    {ℓ ℓ' : Lock} (hask : (phase i).asks q) (hlock : lockOf s i q = some ℓ)
    (howner : s.store.owner ℓ' = some i) : rank ℓ' < rank ℓ := by
  obtain ⟨ws, hws, hmem⟩ := (h.held ℓ' i).mp howner
  have hholds := h.holds i
  rcases rank_of_asks hask hlock with hphase | ⟨hrank, ⟨key, hphase⟩ | ⟨key, hphase⟩⟩
  · rw [hphase] at hholds
    cases hws.symm.trans hholds
    cases hmem
  · rw [hphase] at hholds
    obtain ⟨row, -, htx, -⟩ := hholds
    cases hws.symm.trans htx
    rw [List.map_singleton, List.mem_singleton] at hmem
    rw [hmem, hrank]
    exact Nat.zero_lt_one
  · rw [hphase] at hholds
    cases hws.symm.trans hholds.1
    rw [List.map_singleton, List.mem_singleton] at hmem
    rw [hmem, hrank]
    exact Nat.zero_lt_one

/-- Whoever holds a lock is a call in progress. -/
theorem active_of_owner {c : WriteConfig ι} {γ : ι → Option Phase} (h : DbInv c.shared (phaseOf γ))
    (hF : ∀ i, Pool.Follows phases (fun _ => Closed) (γ i) (c.calls i)) {i : ι} {ℓ : Lock}
    (howner : c.shared.store.owner ℓ = some i) : (c.calls i).Active := by
  obtain ⟨ws, hws, -⟩ := (h.held ℓ i).mp howner
  have hFi := hF i
  have hout : γ i ≠ none := by
    intro hγ
    have hholds := h.holds i
    rw [phaseOf, hγ] at hholds
    cases hws.symm.trans hholds
  cases hi : c.calls i with
  | running k p => trivial
  | idle => rw [hi] at hFi; exact absurd hFi hout
  | returned k a => rw [hi] at hFi; exact absurd hFi.1 hout
  | dropped k => rw [hi] at hFi; exact absurd hFi hout

variable [DecidableEq ι]

/-- In every reachable state of any number of `insert_like` and `delete_like` calls no
    transactions wait for each other in a circle, and every call in progress waits, directly or
    not, for a call in progress whose next statement can run, unless its own can. -/
theorem writePath_noDeadlock {c : WriteConfig ι} (hc : writePath.machine.Reachable c) :
    (∀ i, ¬ Relation.TransGen (WaitsFor c.shared.store.owner (wants c)) i i) ∧
      ∀ i, (c.calls i).Active → ∃ j,
        Relation.ReflTransGen (WaitsFor c.shared.store.owner (wants c)) i j ∧ (c.calls j).Active ∧
        ∀ now order, ∃ c', writePath.machine.step c (.step j (.run now order)) = some c' := by
  obtain ⟨γ, h, hF⟩ := writePath_sound.reachable hc
  have hordered : Ordered c.shared.store.owner (wants c) rank := by
    intro i ℓ ℓ' hwants howner
    unfold wants at hwants
    split at hwants
    · rename_i k q f hi
      have hFi := hF i
      rw [hi] at hFi
      obtain ⟨φ, hγ, hobeys⟩ := hFi
      have hφ : phaseOf γ i = φ := by simp [phaseOf, hγ]
      exact rank_lt_of_owner h (by rw [hφ]; exact hobeys.1) hwants howner
    · cases hwants
  have hrank : ∀ ℓ, rank ℓ ≤ 1 := fun ℓ => by cases ℓ <;> simp [rank]
  refine ⟨hordered.acyclic, fun i hi => ?_⟩
  obtain ⟨j, hij, hlast⟩ := hordered.exists_last hrank i
  have hactive : (c.calls j).Active := by
    rcases Relation.ReflTransGen.cases_tail hij with rfl | ⟨k, -, ℓ, -, howner, -⟩
    · exact hi
    · exact active_of_owner h hF howner
  refine ⟨j, hij, hactive, fun now order => ?_⟩
  cases hj : c.calls j with
  | running k p =>
    obtain ⟨q, f, rfl⟩ := Pool.ahead_of_reachable hc j k p hj
    cases hrun : runStatement c.shared j now order q with
    | none =>
      obtain ⟨ℓ, k', hlock, howner⟩ := runStatement_none_iff.mp hrun
      exact absurd ⟨ℓ, by rw [wants, hj]; exact hlock, howner⟩ (hlast k')
    | some result =>
      refine ⟨⟨result.1, Function.update c.calls j (.settle k (f result.2))⟩, ?_⟩
      show writePath.act c (.step j (.run now order)) = _
      simp only [Pool.act, hj]
      show Option.map _ (runStatement c.shared j now order q) = _
      rw [hrun]
      rfl
  | idle => rw [hj] at hactive; exact hactive.elim
  | returned k a => rw [hj] at hactive; exact hactive.elim
  | dropped k => rw [hj] at hactive; exact hactive.elim

/-- Two likes of one item by one user; the first has inserted its row and not yet counted it. -/
def queuedLikes : List (Act ℕ WriteCall DbChoice) :=
  let go : DbChoice := .run .epoch []
  [.start 0 (.insertLike 1 ("post", 7)), .start 1 (.insertLike 1 ("post", 7)), .step 0 go,
    .step 1 go, .step 0 go]

/-- The second of the two waits for the first, and the first can go on. -/
theorem writePath_noDeadlock_queued :
    ∃ c, writePath.machine.run ⟨newDatabase, fun _ => .idle⟩ queuedLikes = some c ∧
      WaitsFor c.shared.store.owner (wants c) 1 0 ∧
      (∀ i, ¬ Relation.TransGen (WaitsFor c.shared.store.owner (wants c)) i i) ∧
      ∀ i, (c.calls i).Active → ∃ j,
        Relation.ReflTransGen (WaitsFor c.shared.store.owner (wants c)) i j ∧ (c.calls j).Active ∧
        ∀ now order, ∃ c', writePath.machine.step c (.step j (.run now order)) = some c' := by
  have hlocks : (writePath.machine.run ⟨newDatabase, fun _ => .idle⟩ queuedLikes).map
      (fun c => (wants c 1, c.shared.store.owner (.like (1, ("post", 7))))) =
      some (some (.like (1, ("post", 7))), some 0) := by decide
  obtain ⟨c, hrun, hwait⟩ := Option.map_eq_some_iff.mp hlocks
  obtain ⟨hwants, howner⟩ := Prod.mk.inj hwait
  refine ⟨c, hrun, ⟨_, hwants, howner, Nat.zero_ne_one⟩,
    writePath_noDeadlock (.run (.initial ?_) hrun)⟩
  exact ⟨⟨_, consistent_empty, rfl⟩, fun _ => rfl⟩

end SocialApi.Repositories
