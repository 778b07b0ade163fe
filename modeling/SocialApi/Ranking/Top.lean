import Mathlib

/-!
# The highest-ranked elements of a list

`top score n as` is what `ORDER BY score DESC LIMIT n` selects: the list sorted by
descending score, ties in the order of the list, cut after `n` elements. Elements with
equal scores may be selected differently from a rearranged list, their scores may not.

* `scores_top_of_perm`: the scores of `top` depend only on which scores occur.
* `scores_take_of_perm_top`: a descending rearrangement of `top score n as` has the same
  first `m ≤ n` scores as `top score m as`.
* `scores_top_positive`: leaving out elements of score 0 changes the scores exactly when
  the elements of positive score are fewer than asked for.
-/

namespace SocialApi.Ranking

variable {α β : Type} {score : α → ℤ}

/-- `a` may stand before `b`. -/
def Above (score : α → ℤ) (a b : α) : Prop := score b ≤ score a

instance (score : α → ℤ) : DecidableRel (Above score) := fun a b => by
  unfold Above; infer_instance

instance (score : α → ℤ) : Std.Total (Above score) := ⟨fun a b => le_total (score b) (score a)⟩

instance (score : α → ℤ) : IsTrans α (Above score) := ⟨fun _ _ _ hab hbc => le_trans hbc hab⟩

/-- The list is in descending order. -/
def Descending (score : α → ℤ) (as : List α) : Prop := as.Pairwise (Above score)

/-- The first `n` elements of the list in descending order. -/
def top (score : α → ℤ) (n : ℕ) (as : List α) : List α := (as.insertionSort (Above score)).take n

theorem descending_top (n : ℕ) (as : List α) : Descending score (top score n as) :=
  (List.pairwise_insertionSort (Above score) as).sublist (List.take_sublist n _)

theorem mem_of_mem_top {n : ℕ} {as : List α} {a : α} (h : a ∈ top score n as) : a ∈ as :=
  (List.mem_insertionSort _).mp (List.mem_of_mem_take h)

theorem nodup_map_top {n : ℕ} {as : List α} {f : α → β} (h : (as.map f).Nodup) :
    ((top score n as).map f).Nodup := by
  have hsort : ((as.insertionSort (Above score)).map f).Nodup :=
    ((List.perm_insertionSort (Above score) as).map f).nodup_iff.mpr h
  exact hsort.sublist ((List.take_sublist n _).map f)

theorem length_top (n : ℕ) (as : List α) : (top score n as).length = min n as.length := by
  unfold top
  rw [List.length_take, List.length_insertionSort]

@[simp] theorem top_nil (n : ℕ) : top score n [] = [] := List.take_nil

theorem top_eq_nil {n : ℕ} {as : List α} (hn : 0 < n) : top score n as = [] ↔ as = [] := by
  constructor
  · intro h
    have hlen : (top score n as).length = min n as.length := length_top n as
    rw [h, List.length_nil] at hlen
    exact List.length_eq_zero_iff.mp (by omega)
  · rintro rfl
    exact top_nil n

/-- A rearrangement of an image is the image of a rearrangement. -/
theorem exists_map_of_perm {f : α → β} {as : List α} {bs : List β} (h : bs.Perm (as.map f)) :
    ∃ as' : List α, as'.Perm as ∧ bs = as'.map f := by
  have hmap : List.Forall₂ (fun b a => b = f a) (as.map f) as :=
    List.forall₂_map_left_iff.mpr (List.forall₂_same.mpr fun _ _ => rfl)
  obtain ⟨as', hall, hperm⟩ := List.perm_comp_forall₂ h hmap
  refine ⟨as', hperm, ?_⟩
  have heq : List.Forall₂ (· = ·) bs (as'.map f) := List.forall₂_map_right_iff.mpr hall
  rwa [List.forall₂_eq_eq_eq] at heq

/-! ## The sequence of scores -/

theorem pairwise_scores {as : List α} (h : Descending score as) :
    (as.map score).Pairwise (· ≥ ·) :=
  List.pairwise_map.mpr h

/-- Two descending lists in which the same scores occur show them in the same order. -/
theorem scores_eq_of_perm {as : List α} {bs : List β} {score' : β → ℤ} (ha : Descending score as)
    (hb : Descending score' bs) (hperm : (as.map score).Perm (bs.map score')) :
    as.map score = bs.map score' :=
  hperm.eq_of_pairwise' (pairwise_scores ha) (pairwise_scores hb)

/-- The scores of the selected elements, from the scores alone. -/
theorem scores_top (n : ℕ) (as : List α) :
    (top score n as).map score = ((as.map score).insertionSort (· ≥ ·)).take n := by
  unfold top
  rw [List.map_take]
  congr 1
  refine List.Perm.eq_of_pairwise' (r := (· ≥ ·)) ?_ (List.pairwise_insertionSort _ _) ?_
  · exact pairwise_scores (List.pairwise_insertionSort (Above score) as)
  · exact ((List.perm_insertionSort _ as).map score).trans (List.perm_insertionSort _ _).symm

theorem scores_top_of_perm {as : List α} {bs : List β} {score' : β → ℤ} (n : ℕ)
    (hperm : (as.map score).Perm (bs.map score')) :
    (top score n as).map score = (top score' n bs).map score' := by
  rw [scores_top, scores_top]
  congr 1
  refine List.Perm.eq_of_pairwise' (r := (· ≥ ·)) (List.pairwise_insertionSort _ _)
    (List.pairwise_insertionSort _ _) ?_
  exact (List.perm_insertionSort _ _).trans (hperm.trans (List.perm_insertionSort _ _).symm)

/-- The first `m` of the first `n`. -/
theorem take_top {m n : ℕ} (hmn : m ≤ n) (as : List α) :
    (top score n as).take m = top score m as := by
  unfold top
  rw [List.take_take, Nat.min_eq_left hmn]

/-- A list that holds the scores of the first `n` elements in descending order begins with
    the scores of the first `m`. -/
theorem scores_take_of_perm_top {m n : ℕ} (hmn : m ≤ n) {as : List α} {bs : List β}
    {score' : β → ℤ} (hb : Descending score' bs)
    (hperm : (bs.map score').Perm ((top score n as).map score)) :
    (bs.take m).map score' = (top score m as).map score := by
  rw [List.map_take, scores_eq_of_perm hb (descending_top n as) hperm, ← List.map_take,
    take_top hmn]

/-! ## Elements of score 0 -/

/-- The scores of a list without negative scores: the positive ones, then the zeros. -/
theorem sorted_scores_positive {as : List α} (hnonneg : ∀ a ∈ as, 0 ≤ score a) :
    (as.map score).insertionSort (· ≥ ·) =
      ((as.filter fun a => 0 < score a).map score).insertionSort (· ≥ ·) ++
        List.replicate (as.countP fun a => score a = 0) 0 := by
  have hpositive : ∀ z ∈ ((as.filter fun a => 0 < score a).map score).insertionSort (· ≥ ·),
      0 < z := by
    intro z hz
    obtain ⟨a, ha, rfl⟩ := List.mem_map.mp ((List.mem_insertionSort _).mp hz)
    exact of_decide_eq_true (List.mem_filter.mp ha).2
  refine List.Perm.eq_of_pairwise' (r := (· ≥ ·)) (List.pairwise_insertionSort _ _) ?_ ?_
  · refine List.pairwise_append.mpr ⟨List.pairwise_insertionSort _ _, ?_, ?_⟩
    · exact List.pairwise_replicate.mpr (Or.inr le_rfl)
    · intro z hz w hw
      rw [List.eq_of_mem_replicate hw]
      exact (hpositive z hz).le
  · refine (List.perm_insertionSort _ _).trans ?_
    refine List.Perm.trans ?_ ((List.perm_insertionSort _ _).symm.append_right _)
    have hzeros : (as.filter fun a => !decide (0 < score a)).map score =
        List.replicate (as.countP fun a => score a = 0) 0 := by
      refine List.eq_replicate_iff.mpr ⟨?_, ?_⟩
      · rw [List.length_map, ← List.countP_eq_length_filter]
        refine List.countP_congr fun a ha => ?_
        have hge := hnonneg a ha
        simp only [Bool.not_eq_true', decide_eq_false_iff_not, decide_eq_true_eq]
        omega
      · intro z hz
        obtain ⟨a, ha, rfl⟩ := List.mem_map.mp hz
        obtain ⟨hmem, hnot⟩ := List.mem_filter.mp ha
        have hge := hnonneg a hmem
        simp only [Bool.not_eq_true', decide_eq_false_iff_not] at hnot
        omega
    rw [← hzeros, ← List.map_append]
    exact (List.filter_append_perm _ as).symm.map score

/-- Elements of score 0 show among the first `n` exactly when there are some and the elements
    of positive score are fewer than `n`. -/
theorem scores_top_positive {as : List α} (hnonneg : ∀ a ∈ as, 0 ≤ score a) (n : ℕ) :
    (top score n as).map score = (top score n (as.filter fun a => 0 < score a)).map score ↔
      (∀ a ∈ as, score a ≠ 0) ∨ n ≤ (as.filter fun a => 0 < score a).length := by
  rw [scores_top, scores_top, sorted_scores_positive hnonneg]
  set positives := ((as.filter fun a => 0 < score a).map score).insertionSort (· ≥ ·)
    with hpositives
  have hlength : positives.length = (as.filter fun a => 0 < score a).length := by
    rw [hpositives, List.length_insertionSort, List.length_map]
  rw [← hlength]
  constructor
  · intro h
    have hcut := congrArg List.length h
    simp only [List.length_take, List.length_append, List.length_replicate] at hcut
    by_cases hn : n ≤ positives.length
    · exact Or.inr hn
    · refine Or.inl fun a ha hzero => ?_
      have hcount : 0 < as.countP fun a => score a = 0 :=
        List.countP_pos_iff.mpr ⟨a, ha, decide_eq_true hzero⟩
      omega
  · rintro (hnone | hn)
    · have hcount : (as.countP fun a => score a = 0) = 0 :=
        List.countP_eq_zero.mpr fun a ha => by simpa using hnone a ha
      rw [hcount, List.replicate_zero, List.append_nil]
    · exact List.take_append_of_le_length hn

end SocialApi.Ranking
