import SocialApi.Concurrent.Pool

/-!
# Values that some call is still going to set right

A pool's shared state has cells, each of which is right or not. A call that has made a cell
wrong may be bound to set it right later (`Promised`): every way it can go on performs an
operation that does. A cell is tended if it is right or some call in progress is bound to
set it right.

* `Tends.tended_step`: the steps that leave every wrong cell to some call keep all cells tended.
* `Tended.right_of_quiet`: when no call is in progress, all tended cells are right.
-/

namespace SocialApi.Concurrent.Pool

variable {ι σ κ E : Type} {Ans : E → Type} {α χ Cell : Type}

/-- Call `i` is in progress and cannot end without an operation of `S`. -/
def Promised (c : Configuration ι σ κ E Ans α) (S : E → Prop) (i : ι) : Prop :=
  ∃ k p, c.calls i = .running k p ∧ p.WillIn S

/-- Every selected cell is right, or some call is bound to set it right. -/
def Tended (right : σ → Cell → Prop) (mends : σ → Cell → E → Prop) (sel : Cell → Prop)
    (c : Configuration ι σ κ E Ans α) : Prop :=
  ∀ cell, sel cell → right c.shared cell ∨ ∃ i, Promised c (mends c.shared cell) i

variable {right : σ → Cell → Prop} {mends : σ → Cell → E → Prop} {sel : Cell → Prop}
  {c : Configuration ι σ κ E Ans α}

/-- When no call is in progress, nothing is left to be set right. -/
theorem Tended.right_of_quiet (h : Tended right mends sel c) (hquiet : ∀ i, ¬ (c.calls i).Active)
    {cell : Cell} (hcell : sel cell) : right c.shared cell := by
  rcases h cell hcell with hright | ⟨i, k, p, hi, -⟩
  · exact hright
  · refine absurd ?_ (hquiet i)
    rw [hi]
    trivial

/-- A promise is kept by the next operation or passed on to the rest of the call. -/
theorem Promised.next {S : E → Prop} {i : ι} {k : κ} {e : E} {f : Ans e → Prog E Ans α}
    (h : Promised c S i) (hi : c.calls i = .running k (.op e f)) : S e ∨ ∀ r, (f r).WillIn S := by
  obtain ⟨k', p, hp, hwill⟩ := h
  obtain ⟨-, rfl⟩ := CallState.running.inj (hi.symm.trans hp)
  exact hwill

variable [DecidableEq ι]

theorem promised_settle {S : E → Prop} {s : σ} {calls : ι → CallState κ E Ans α} {i : ι} {k : κ}
    {p : Prog E Ans α} (h : p.WillIn S) :
    Promised ⟨s, Function.update calls i (.settle k p)⟩ S i := by
  cases p with
  | ret a => exact h.elim
  | op e f => exact ⟨k, .op e f, Function.update_self _ _ _, h⟩

theorem Promised.update {S : E → Prop} {s : σ} {i j : ι} {cs : CallState κ E Ans α}
    (h : Promised c S j) (hj : j ≠ i) : Promised ⟨s, Function.update c.calls i cs⟩ S j := by
  obtain ⟨k, p, hp, hwill⟩ := h
  exact ⟨k, p, (Function.update_of_ne hj _ _).trans hp, hwill⟩

/-- What the steps that meet `guard` do to the cells, given `I`. An operation of call `i` may
    change what is right for a cell if the call then sets it right; otherwise it may make a right
    cell wrong only if another call sets it right. -/
structure Tends (D : Pool ι σ κ E Ans α χ) (I : Configuration ι σ κ E Ans α → Prop)
    (guard : Configuration ι σ κ E Ans α → Act ι κ χ → Prop) (right : σ → Cell → Prop)
    (mends : σ → Cell → E → Prop) (sel : Cell → Prop) : Prop where
  start : ∀ c i k s, I c → guard c (.start i k) → D.start c.shared i k = some s →
    ∀ cell, sel cell → mends s cell = mends c.shared cell ∧ (right c.shared cell → right s cell)
  step : ∀ c i x k e f s r, I c → guard c (.step i x) → c.calls i = .running k (.op e f) →
    D.handle c.shared i e x = some (s, r) → ∀ cell, sel cell →
      (f r).WillIn (mends s cell) ∨
      mends s cell = mends c.shared cell ∧ (mends c.shared cell e → right s cell) ∧
        (right c.shared cell → right s cell ∨ ∃ j, j ≠ i ∧ Promised c (mends c.shared cell) j)
  drop : ∀ c i s, I c → guard c (.drop i) → D.drop c.shared i = some s → ∀ cell, sel cell →
    mends s cell = mends c.shared cell ∧ (right c.shared cell → right s cell) ∧
      (right c.shared cell ∨ ∃ j, j ≠ i ∧ Promised c (mends c.shared cell) j)
  env : ∀ c x s, I c → guard c (.env x) → D.env c.shared x = some s → ∀ cell, sel cell →
    mends s cell = mends c.shared cell ∧ (right c.shared cell → right s cell)

variable {D : Pool ι σ κ E Ans α χ} {I : Configuration ι σ κ E Ans α → Prop}
  {guard : Configuration ι σ κ E Ans α → Act ι κ χ → Prop}

/-- Every step that meets the guard keeps the cells tended. -/
theorem Tends.tended_step (T : Tends D I guard right mends sel) {a : Act ι κ χ}
    {c' : Configuration ι σ κ E Ans α} (hI : I c) (hc : Tended right mends sel c) (ha : guard c a)
    (h : D.machine.step c a = some c') : Tended right mends sel c' := by
  intro cell hcell
  rcases act_cases h with ⟨i, k, s, rfl, hi, hs, rfl⟩ | ⟨i, x, k, e, f, s, r, rfl, hi, hs, rfl⟩ |
    ⟨i, k, p, s, rfl, hi, hs, rfl⟩ | ⟨x, s, rfl, hs, rfl⟩
  · obtain ⟨hmends, hright⟩ := T.start c i k s hI ha hs cell hcell
    rcases hc cell hcell with hok | ⟨j, hj⟩
    · exact Or.inl (hright hok)
    · refine Or.inr ⟨j, ?_⟩
      have hji : j ≠ i := by
        rintro rfl
        obtain ⟨k', p, hp, -⟩ := hj
        rw [hi] at hp
        cases hp
      show Promised _ (mends s cell) j
      rw [hmends]
      exact hj.update hji
  · rcases T.step c i x k e f s r hI ha hi hs cell hcell with hwill | ⟨hmends, hpaid, hspoilt⟩
    · exact Or.inr ⟨i, promised_settle hwill⟩
    · have hother : (∃ j, j ≠ i ∧ Promised c (mends c.shared cell) j) →
          ∃ j, Promised (⟨s, Function.update c.calls i (.settle k (f r))⟩ :
            Configuration ι σ κ E Ans α) (mends s cell) j := by
        rintro ⟨j, hji, hj⟩
        refine ⟨j, ?_⟩
        rw [hmends]
        exact hj.update hji
      rcases hc cell hcell with hok | ⟨j, hj⟩
      · exact (hspoilt hok).imp_right hother
      · by_cases hji : j = i
        · subst hji
          -- the promise is kept now, or later
          rcases hj.next hi with hnow | hlater
          · exact Or.inl (hpaid hnow)
          · refine Or.inr ⟨j, promised_settle ?_⟩
            show (f r).WillIn (mends s cell)
            rw [hmends]
            exact hlater r
        · exact Or.inr (hother ⟨j, hji, hj⟩)
  · obtain ⟨hmends, hright, hleft⟩ := T.drop c i s hI ha hs cell hcell
    rcases hleft with hok | ⟨j, hji, hj⟩
    · exact Or.inl (hright hok)
    · refine Or.inr ⟨j, ?_⟩
      show Promised _ (mends s cell) j
      rw [hmends]
      exact hj.update hji
  · obtain ⟨hmends, hright⟩ := T.env c x s hI ha hs cell hcell
    rcases hc cell hcell with hok | ⟨j, hj⟩
    · exact Or.inl (hright hok)
    · refine Or.inr ⟨j, ?_⟩
      show Promised _ (mends s cell) j
      rw [hmends]
      exact hj

/-- Along a run whose steps meet the guard, all cells are right whenever no call is in
    progress. -/
theorem Tends.right_along (T : Tends D I guard right mends sel)
    (hI : ∀ c a c', I c → guard c a → D.machine.step c a = some c' → I c')
    {init : Configuration ι σ κ E Ans α} {acts : List (Act ι κ χ)} (hinit : I init)
    (hright : ∀ cell, sel cell → right init.shared cell)
    (hmeets : D.machine.Meets guard init acts) :
    D.machine.Along (fun c => (∀ i, ¬ (c.calls i).Active) → ∀ cell, sel cell → right c.shared cell)
      init acts := by
  refine (Machine.along_of_meets (I := fun c => I c ∧ Tended right mends sel c)
    (fun c a c' hc ha hs => ⟨hI c a c' hc.1 ha hs, T.tended_step hc.1 hc.2 ha hs⟩)
    ⟨hinit, fun cell hcell => Or.inl (hright cell hcell)⟩ hmeets).mono ?_
  exact fun c hc hquiet cell hcell => hc.2.right_of_quiet hquiet hcell

end SocialApi.Concurrent.Pool
