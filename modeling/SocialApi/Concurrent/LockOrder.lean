import Mathlib

/-!
# Locks taken in order

Transactions `ι` hold locks `L` and each may want one more. If whoever wants a lock
holds only locks of lower rank, then no transactions wait for each other in a circle,
and of any transaction that waits there is one at the end of its chain that does not.

* `Ordered.acyclic`: the waits-for relation has no cycle.
* `Ordered.exists_last`: every chain of waiting transactions ends.
-/

namespace SocialApi.Concurrent

variable {ι L : Type}

/-- Transaction `i` wants a lock that `j` holds. -/
def WaitsFor (owner : L → Option ι) (wants : ι → Option L) (i j : ι) : Prop :=
  ∃ ℓ, wants i = some ℓ ∧ owner ℓ = some j ∧ j ≠ i

/-- Whoever wants a lock holds only locks of lower rank. -/
def Ordered (owner : L → Option ι) (wants : ι → Option L) (rank : L → ℕ) : Prop :=
  ∀ i ℓ ℓ', wants i = some ℓ → owner ℓ' = some i → rank ℓ' < rank ℓ

variable {owner : L → Option ι} {wants : ι → Option L} {rank : L → ℕ}

/-- Along a chain the wanted locks go up in rank. -/
theorem Ordered.rank_lt (h : Ordered owner wants rank) {i j : ι} {ℓ' : L}
    (hchain : Relation.TransGen (WaitsFor owner wants) i j) (hj : wants j = some ℓ') :
    ∃ ℓ, wants i = some ℓ ∧ rank ℓ < rank ℓ' := by
  induction hchain generalizing ℓ' with
  | single hwait =>
    obtain ⟨ℓ, hi, howner, -⟩ := hwait
    exact ⟨ℓ, hi, h _ ℓ' ℓ hj howner⟩
  | tail _ hwait ih =>
    obtain ⟨ℓ, hb, howner, -⟩ := hwait
    obtain ⟨ℓ₀, hi, hlt⟩ := ih hb
    exact ⟨ℓ₀, hi, hlt.trans (h _ ℓ' ℓ hj howner)⟩

/-- Nobody waits, directly or not, for himself. -/
theorem Ordered.acyclic (h : Ordered owner wants rank) (i : ι) :
    ¬ Relation.TransGen (WaitsFor owner wants) i i := by
  intro hcycle
  obtain ⟨j, ⟨ℓ, hi, -, -⟩, -⟩ := Relation.TransGen.head'_iff.mp hcycle
  obtain ⟨ℓ', hi', hlt⟩ := h.rank_lt hcycle hi
  rw [hi] at hi'
  rw [Option.some.inj hi'] at hlt
  exact lt_irrefl _ hlt

/-- At the end of the chain of any transaction there is one that waits for nobody. -/
theorem Ordered.exists_last (h : Ordered owner wants rank) {n : ℕ} (hrank : ∀ ℓ, rank ℓ ≤ n)
    (i : ι) : ∃ j, Relation.ReflTransGen (WaitsFor owner wants) i j ∧
      ∀ k, ¬ WaitsFor owner wants j k := by
  -- induction on how far the rank of the wanted lock is from the highest
  have hfar : ∀ m i, (∀ ℓ, wants i = some ℓ → n ≤ rank ℓ + m) →
      ∃ j, Relation.ReflTransGen (WaitsFor owner wants) i j ∧ ∀ k, ¬ WaitsFor owner wants j k := by
    intro m
    induction m with
    | zero =>
      intro i hi
      by_cases hwait : ∃ k, WaitsFor owner wants i k
      · obtain ⟨k, ℓ, hℓ, howner, hne⟩ := hwait
        refine ⟨k, .single ⟨ℓ, hℓ, howner, hne⟩, ?_⟩
        rintro k' ⟨ℓ', hℓ', -, -⟩
        have hup := h k ℓ' ℓ hℓ' howner
        have hlow := hi ℓ hℓ
        have hhigh := hrank ℓ'
        omega
      · exact ⟨i, .refl, fun k hk => hwait ⟨k, hk⟩⟩
    | succ m ih =>
      intro i hi
      by_cases hwait : ∃ k, WaitsFor owner wants i k
      · obtain ⟨k, ℓ, hℓ, howner, hne⟩ := hwait
        obtain ⟨j, hkj, hlast⟩ := ih k fun ℓ' hℓ' => by
          have hup := h k ℓ' ℓ hℓ' howner
          have hlow := hi ℓ hℓ
          omega
        exact ⟨j, .head ⟨ℓ, hℓ, howner, hne⟩ hkj, hlast⟩
      · exact ⟨i, .refl, fun k hk => hwait ⟨k, hk⟩⟩
  exact hfar n i fun ℓ _ => by omega

end SocialApi.Concurrent
