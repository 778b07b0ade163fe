import SocialApi.Concurrent.History
import SocialApi.Concurrent.Tracked

/-!
# What calls may cost

A tariff says what an operation costs and what its answer gives back. A program that starts with
a credit pays for each operation before it performs it.

* `Tariff.Pays`: whatever the answers, the program can pay for everything it does. `Pays.bind`,
  `Pays.op`, `pays_of_free`, `pays_lift`: the rules.
* `Tariff.spent_le`: if the program of every request can pay with the credit of the request, then
  in every run and at any time no call has spent more than its credit and what it was given back.
-/

namespace SocialApi.Concurrent

/-- What operations cost and what their answers give back. -/
structure Tariff (E : Type) (Ans : E → Type) where
  cost : E → ℕ
  refund : (e : E) → Ans e → ℕ

namespace Tariff

variable {E E' : Type} {Ans : E → Type} {Ans' : E' → Type} {α β : Type}

/-- With the credit `n` the program can pay, and if it returns `a` then `m a` is left. -/
def Pays (t : Tariff E Ans) (m : α → ℕ) : ℕ → Prog E Ans α → Prop
  | n, .ret a => m a ≤ n
  | n, .op e k => t.cost e ≤ n ∧ ∀ r, Pays t m (n - t.cost e + t.refund e r) (k r)

variable {t : Tariff E Ans} {m : α → ℕ} {n n' : ℕ}

theorem Pays.mono {m' : α → ℕ} {p : Prog E Ans α} (h : t.Pays m n p) (hn : n ≤ n')
    (hm : ∀ a, m' a ≤ m a) : t.Pays m' n' p := by
  induction p generalizing n n' with
  | ret a => exact (hm a).trans (Nat.le_trans h hn)
  | op e k ih =>
    refine ⟨h.1.trans hn, fun r => ih r (h.2 r) ?_⟩
    omega

theorem Pays.bind {l : β → ℕ} {p : Prog E Ans α} {f : α → Prog E Ans β} (h : t.Pays m n p)
    (hf : ∀ a, t.Pays l (m a) (f a)) : t.Pays l n (p.bind f) := by
  induction p generalizing n with
  | ret a => exact (hf a).mono h fun b => le_rfl
  | op e k ih => exact ⟨h.1, fun r => ih r (h.2 r)⟩

/-- What costs nothing leaves the credit as it is. -/
theorem pays_of_free {p : Prog E Ans α} (h : p.All fun e => t.cost e = 0) :
    t.Pays (fun _ => n) n p := by
  induction p with
  | ret a => exact le_rfl
  | op e k ih =>
    refine ⟨by rw [h.1]; exact Nat.zero_le n, fun r => (ih r (h.2 r)).mono ?_ fun a => le_rfl⟩
    rw [h.1]
    omega

theorem pays_lift {t : Tariff E' Ans'} {t' : Tariff E Ans} {inj : E → E'}
    {back : ∀ e, Ans' (inj e) → Ans e} {p : Prog E Ans α} (h : t'.Pays m n p)
    (hcost : ∀ e, t.cost (inj e) = t'.cost e)
    (hrefund : ∀ e r, t.refund (inj e) r = t'.refund e (back e r)) :
    t.Pays m n (p.lift inj back) := by
  induction p generalizing n with
  | ret a => exact h
  | op e k ih =>
    refine ⟨by rw [hcost]; exact h.1, fun r => ?_⟩
    rw [hcost, hrefund]
    exact ih _ (h.2 _)

/-! ## Runs -/

/-- The request of a call and its credit, as a protocol. -/
def protocol (t : Tariff E Ans) (κ : Type) : Protocol E Ans (κ × ℕ) where
  asks g e := t.cost e ≤ g.2
  answers g e r g' := g' = (g.1, g.2 - t.cost e + t.refund e r)

theorem obeys_of_pays {κ : Type} {k : κ} {p : Prog E Ans α} (h : t.Pays m n p) :
    (t.protocol κ).Obeys (fun _ _ => True) (k, n) p := by
  induction p generalizing n with
  | ret a => trivial
  | op e f ih =>
    refine ⟨h.1, fun r g hg => ?_⟩
    rw [hg]
    exact ih r (h.2 r)

variable {ι σ κ χ : Type} [DecidableEq ι]

/-- What call `i` has spent. -/
def spent (t : Tariff E Ans) (record : List (Performed ι σ E Ans)) (i : ι) : ℕ :=
  ((record.filter fun p => p.call = i).map fun p => t.cost p.op).sum

/-- What call `i` has been given back. -/
def refunded (t : Tariff E Ans) (record : List (Performed ι σ E Ans)) (i : ι) : ℕ :=
  ((record.filter fun p => p.call = i).map fun p => t.refund p.op p.answer).sum

section Records

variable {record : List (Performed ι σ E Ans)} {p : Performed ι σ E Ans} {i : ι}

theorem spent_append : t.spent (record ++ [p]) i =
    t.spent record i + if p.call = i then t.cost p.op else 0 := by
  by_cases hp : p.call = i <;> simp [spent, List.filter_append, hp]

theorem refunded_append : t.refunded (record ++ [p]) i =
    t.refunded record i + if p.call = i then t.refund p.op p.answer else 0 := by
  by_cases hp : p.call = i <;> simp [refunded, List.filter_append, hp]

theorem spent_cons : t.spent (p :: record) i =
    (if p.call = i then t.cost p.op else 0) + t.spent record i := by
  by_cases hp : p.call = i <;> simp [spent, hp]

/-- What is cheaper by a factor comes to less by it. -/
theorem spent_mul_le {t' : Tariff E Ans} {w : ℕ} (h : ∀ e, w * t.cost e ≤ t'.cost e) :
    w * t.spent record i ≤ t'.spent record i := by
  induction record with
  | nil => exact Nat.le_refl 0
  | cons p record ih =>
    rw [spent_cons, spent_cons, Nat.mul_add]
    refine Nat.add_le_add ?_ ih
    split_ifs
    · exact h p.op
    · exact Nat.zero_le _

end Records

/-- What every call has spent, and what it has left of its credit. -/
def Balanced (t : Tariff E Ans) (credit : κ → ℕ) (s : σ × List (Performed ι σ E Ans))
    (γ : ι → Option (κ × ℕ)) : Prop :=
  ∀ i, (γ i = none → t.spent s.2 i = 0 ∧ t.refunded s.2 i = 0) ∧
    ∀ k n, γ i = some (k, n) → t.spent s.2 i + n = credit k + t.refunded s.2 i

variable {D : Pool ι σ κ E Ans α χ} {credit : κ → ℕ}

theorem balanced_records (hprog : ∀ k, t.Pays (fun _ => 0) (credit k) (D.prog k)) :
    Pool.Records D.recorded (t.protocol κ) (fun k g => g.1 = k) (fun _ _ => True)
      (fun _ => True) (fun k => (k, credit k)) (t.Balanced credit) (fun _ _ => True) where
  prog k := obeys_of_pays (hprog k)
  typed _ := rfl
  start c i k s γ _ hJ hγ hs := by
    obtain ⟨s', -, rfl⟩ := Option.map_eq_some_iff.mp hs
    intro j
    by_cases hj : j = i
    · subst hj
      rw [Function.update_self]
      refine ⟨nofun, fun k' n hk' => ?_⟩
      obtain ⟨rfl, rfl⟩ := Prod.mk.inj (Option.some.inj hk')
      obtain ⟨hspent, hrefunded⟩ := (hJ j).1 hγ
      show t.spent c.shared.2 j + credit k = credit k + t.refunded c.shared.2 j
      omega
    · rw [Function.update_of_ne hj]
      exact hJ j
  handle c i x k e f s r γ g _ hJ _ _ hγ htyped hasks hs := by
    obtain ⟨s', -, rfl⟩ := Pool.recorded_handle hs
    refine ⟨_, rfl, htyped, fun j => ?_⟩
    show (_ → t.spent (_ ++ [_]) j = 0 ∧ t.refunded (_ ++ [_]) j = 0) ∧ ∀ k n, _ →
      t.spent (_ ++ [_]) j + n = credit k + t.refunded (_ ++ [_]) j
    rw [spent_append, refunded_append]
    by_cases hj : j = i
    · subst hj
      rw [Function.update_self, if_pos rfl, if_pos rfl]
      refine ⟨nofun, fun k' n hk' => ?_⟩
      obtain ⟨rfl, rfl⟩ := Prod.mk.inj (Option.some.inj hk')
      have hbalance := (hJ j).2 g.1 g.2 hγ
      have hasks : t.cost e ≤ g.2 := hasks
      show t.spent c.shared.2 j + t.cost e + (g.2 - t.cost e + t.refund e r) =
        credit g.1 + (t.refunded c.shared.2 j + t.refund e r)
      omega
    · rw [Function.update_of_ne hj, if_neg (Ne.symm hj), if_neg (Ne.symm hj)]
      exact hJ j
  drop c i s γ g _ hJ _ hs := by
    obtain ⟨s', -, rfl⟩ := Option.map_eq_some_iff.mp hs
    exact ⟨hJ, trivial⟩
  env c x s γ _ hJ hs := by
    obtain ⟨s', -, rfl⟩ := Option.map_eq_some_iff.mp hs
    exact hJ

/-- No call ever spends more than its credit and what it is given back. -/
theorem spent_le (hprog : ∀ k, t.Pays (fun _ => 0) (credit k) (D.prog k))
    {c : Configuration ι (σ × List (Performed ι σ E Ans)) κ E Ans α}
    (h : D.recorded.machine.Reachable c) {i : ι} {k : κ} (hk : (c.calls i).request = some k) :
    t.spent c.shared.2 i ≤ credit k + t.refunded c.shared.2 i := by
  obtain ⟨init, acts, ⟨⟨-, hempty⟩, hidle⟩, hrun⟩ := h
  have hinit : Pool.Record (t.protocol κ) (fun k g => g.1 = k) (fun _ _ => True) (fun _ => True)
      (t.Balanced credit) init := by
    refine Pool.record_init (fun i => ⟨fun _ => ?_, fun k n => nofun⟩) hidle
    rw [hempty]
    exact ⟨rfl, rfl⟩
  obtain ⟨γ, hJ, hT⟩ := (balanced_records hprog).record_of_meets hinit
    (Machine.meets_of_forall (fun _ _ => trivial) _ _) hrun
  obtain ⟨⟨k', n⟩, hγ, rfl⟩ := (hT i).of_request hk
  have hbalance := (hJ i).2 k' n hγ
  show t.spent c.shared.2 i ≤ credit k' + t.refunded c.shared.2 i
  omega

end Tariff

end SocialApi.Concurrent
