import Mathlib

/-!
# Sliding windows over time-ordered lists

A log of entries with non-decreasing times, of which only those from some cutoff on
matter. Keeping such a suffix and pruning it later loses nothing that a later cutoff
would have kept.

* `recent`: the entries from a cutoff on.
* `recent_recent`, `dropWhile_eq_recent`: pruning twice, and pruning from the front, is
  pruning the whole log.
* `length_between_le`: a bound on what is younger than a width whenever an entry comes
  bounds every interval of that width.
-/

namespace SocialApi.SlidingWindow

variable {α : Type} {time : α → ℤ} {c c' : ℤ} {l : List α}

/-- The entries of the log that are not before `cutoff`. -/
def recent (time : α → ℤ) (cutoff : ℤ) (l : List α) : List α :=
  l.filter fun a => cutoff ≤ time a

/-- The times do not decrease. -/
def Ordered (time : α → ℤ) (l : List α) : Prop := l.Pairwise fun a b => time a ≤ time b

@[simp] theorem recent_nil : recent time c [] = [] := rfl

@[simp] theorem mem_recent {a : α} : a ∈ recent time c l ↔ a ∈ l ∧ c ≤ time a := by
  simp [recent]

theorem recent_append (l m : List α) :
    recent time c (l ++ m) = recent time c l ++ recent time c m := List.filter_append _ _

theorem recent_singleton {a : α} (h : c ≤ time a) : recent time c [a] = [a] := by
  simp [recent, h]

/-- A later cutoff sees the same in a pruned log. -/
theorem recent_recent (h : c ≤ c') : recent time c' (recent time c l) = recent time c' l := by
  unfold recent
  rw [List.filter_filter]
  refine List.filter_congr fun a _ => ?_
  by_cases ha : c' ≤ time a
  · simp [ha, h.trans ha]
  · simp [ha]

theorem Ordered.recent (h : Ordered time l) : Ordered time (recent time c l) :=
  List.Pairwise.filter _ h

theorem Ordered.append_singleton (h : Ordered time l) {a : α} (ha : ∀ b ∈ l, time b ≤ time a) :
    Ordered time (l ++ [a]) := by
  refine List.pairwise_append.mpr ⟨h, List.pairwise_singleton _ _, ?_⟩
  intro b hb a' ha'
  rw [List.mem_singleton.mp ha']
  exact ha b hb

/-- In an ordered log the entries before the cutoff are a prefix. -/
theorem dropWhile_eq_recent (h : Ordered time l) :
    l.dropWhile (fun a => decide (time a < c)) = SlidingWindow.recent time c l := by
  induction l with
  | nil => rfl
  | cons a l ih =>
    obtain ⟨hfirst, hrest⟩ := List.pairwise_cons.mp h
    by_cases ha : time a < c
    · have hnot : ¬ c ≤ time a := not_le.mpr ha
      rw [List.dropWhile_cons_of_pos (by simpa using ha), ih hrest]
      simp [SlidingWindow.recent, hnot]
    · have hall : ∀ b ∈ a :: l, c ≤ time b := by
        intro b hb
        rcases List.mem_cons.mp hb with rfl | hb
        · omega
        · have hle := hfirst b hb
          omega
      rw [List.dropWhile_cons_of_neg (by simpa using ha)]
      exact (List.filter_eq_self.mpr fun b hb => by simpa using hall b hb).symm

/-- If every entry came when fewer than `n` others were younger than `width`, then no
    half-open interval of that width holds more than `n` entries. -/
theorem length_between_le {n : ℕ} {width : ℤ}
    (h : ∀ before a after, l = before ++ a :: after →
      (SlidingWindow.recent time (time a - width + 1) before).length < n) (t : ℤ) :
    (l.filter fun a => t < time a ∧ time a ≤ t + width).length ≤ n := by
  induction l using List.reverseRecOn with
  | nil => simp
  | append_singleton l a ih =>
    have ih := ih fun before b after hl => h before b (after ++ [a]) (by simp [hl])
    rw [List.filter_append]
    by_cases ha : t < time a ∧ time a ≤ t + width
    · -- the others in the interval are younger than `width` when `a` comes
      have hsub : (l.filter fun a => t < time a ∧ time a ≤ t + width).length ≤
          (SlidingWindow.recent time (time a - width + 1) l).length := by
        refine List.Sublist.length_le (List.monotone_filter_right l fun b hb => ?_)
        simp only [decide_eq_true_eq] at hb ⊢
        omega
      have hlt := h l a [] rfl
      simp only [ha, and_self, decide_true, List.filter_cons_of_pos, List.filter_nil,
        List.length_append, List.length_singleton]
      omega
    · simpa [ha] using ih

end SocialApi.SlidingWindow
