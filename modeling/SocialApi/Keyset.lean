import Mathlib

/-!
# Traversals by keyset

The rows of a table are read in pages, larger keys first. A page is cut from the table as it is at
the time, starts after the key of the last row of the page before, and says whether there are more
rows; the table may change from page to page. Nothing here depends on what the rows are and on how
the pages are computed.

* `IsPage.of_sorted`: the first rows of a strictly decreasing list of what comes after the cursor
  are a page.
* `Traversal.decreasing`: the rows of all pages come in strictly decreasing order.
* `Traversal.complete`: a traversal whose last page says that there are no more rows has returned
  every row that was in the table at every page.
* `Traversal.exact`, `Traversal.length_le`: if the table stays the same, it has returned exactly
  its rows, in no more pages than there are rows, or in one page when there are none.
-/

namespace SocialApi.Keyset

variable {α κ : Type} [LinearOrder κ] {key : α → κ}

/-- The row comes after the cursor, if there is one. -/
def Beyond (key : α → κ) (cursor : Option κ) (r : α) : Prop := ∀ k ∈ cursor, key r < k

/-- `shown` are the first rows of the table after the cursor, and `more` says whether there are
    others. -/
structure IsPage (key : α → κ) (rows : List α) (cursor : Option κ) (shown : List α) (more : Bool) :
    Prop where
  decreasing : shown.Pairwise fun r r' => key r' < key r
  mem : ∀ r ∈ shown, r ∈ rows ∧ Beyond key cursor r
  rest : ∀ r ∈ rows, Beyond key cursor r → r ∉ shown → more = true ∧ ∀ r' ∈ shown, key r < key r'
  more : more = true → shown ≠ [] ∧ ∃ r ∈ rows, Beyond key cursor r ∧ r ∉ shown

/-- A page of up to `n` rows is the beginning of the decreasing list of all. -/
theorem IsPage.of_sorted {rows sorted : List α} {cursor : Option κ} {n : ℕ} (hn : 1 ≤ n)
    (hsorted : sorted.Pairwise fun r r' => key r' < key r)
    (hmem : ∀ r, r ∈ sorted ↔ r ∈ rows ∧ Beyond key cursor r) :
    IsPage key rows cursor (sorted.take n) (decide (n < sorted.length)) := by
  have hsplit := List.take_append_drop n sorted
  rw [← hsplit] at hsorted
  obtain ⟨htake, -, hcross⟩ := List.pairwise_append.mp hsorted
  constructor
  · exact htake
  · intro r hr
    exact (hmem r).mp (List.mem_of_mem_take hr)
  · intro r hr hafter hshown
    have hdrop : r ∈ sorted.drop n := by
      have hin := (hmem r).mpr ⟨hr, hafter⟩
      rw [← hsplit] at hin
      rcases List.mem_append.mp hin with h | h
      · exact absurd h hshown
      · exact h
    refine ⟨?_, fun r' hr' => hcross r' hr' r hdrop⟩
    have hlength := List.length_pos_of_mem hdrop
    rw [List.length_drop] at hlength
    exact decide_eq_true (by omega)
  · intro hmore
    have hlength : n < sorted.length := of_decide_eq_true hmore
    have hne : sorted.drop n ≠ [] := by
      intro he
      have h := List.drop_eq_nil_iff.mp he
      omega
    obtain ⟨r, hr⟩ := List.exists_mem_of_ne_nil _ hne
    obtain ⟨hrows, hafter⟩ := (hmem r).mp (List.mem_of_mem_drop hr)
    refine ⟨?_, r, hrows, hafter, fun hshown => ?_⟩
    · intro he
      rcases List.take_eq_nil_iff.mp he with h | h
      · omega
      · rw [h] at hlength
        exact absurd hlength (Nat.not_lt_zero n)
    · exact lt_irrefl _ (hcross r hshown r hr)

/-- What is left after a page comes after its last row. -/
theorem IsPage.after_last {rows shown : List α} {cursor : Option κ} {more : Bool} {last r : α}
    (h : IsPage key rows cursor shown more) (hlast : shown.getLast? = some last) (hr : r ∈ rows)
    (hafter : Beyond key cursor r) (hshown : r ∉ shown) : Beyond key (some (key last)) r := by
  intro k hk
  obtain rfl := Option.some.inj hk
  exact (h.rest r hr hafter hshown).2 last (List.mem_of_getLast? hlast)

/-- The last row of a page is the last in the order. -/
theorem IsPage.last_le {rows shown : List α} {cursor : Option κ} {more : Bool} {last r : α}
    (h : IsPage key rows cursor shown more) (hlast : shown.getLast? = some last) (hr : r ∈ shown) :
    key last ≤ key r := by
  obtain ⟨front, rfl⟩ := List.getLast?_eq_some_iff.mp hlast
  obtain ⟨-, -, hcross⟩ := List.pairwise_append.mp h.decreasing
  rcases List.mem_append.mp hr with hfront | hr
  · exact (hcross r hfront last List.mem_cons_self).le
  · rw [List.mem_singleton.mp hr]

/-- Pages from a cursor on, each with the table it is cut from and each but the first from the last
    row of the one before; `more` is what the last of them says. -/
inductive Traversal (key : α → κ) : Option κ → List (List α × List α) → Bool → Prop
  | last {cursor : Option κ} {rows shown : List α} {more : Bool}
      (page : IsPage key rows cursor shown more) : Traversal key cursor [(rows, shown)] more
  | next {cursor : Option κ} {rows shown : List α} {last : α} {pages : List (List α × List α)}
      {more : Bool} (page : IsPage key rows cursor shown true)
      (hlast : shown.getLast? = some last) (rest : Traversal key (some (key last)) pages more) :
      Traversal key cursor ((rows, shown) :: pages) more

/-- The rows of all pages. -/
def allShown (pages : List (List α × List α)) : List α := pages.flatMap Prod.snd

@[simp] theorem allShown_cons (p : List α × List α) (pages : List (List α × List α)) :
    allShown (p :: pages) = p.2 ++ allShown pages := rfl

@[simp] theorem allShown_nil : allShown ([] : List (List α × List α)) = [] := rfl

variable {cursor : Option κ} {pages : List (List α × List α)} {more : Bool}

/-- All rows come after the cursor. -/
theorem Traversal.after (h : Traversal key cursor pages more) {r : α} (hr : r ∈ allShown pages) :
    Beyond key cursor r := by
  induction h with
  | last page =>
    rw [allShown_cons, allShown_nil, List.append_nil] at hr
    exact (page.mem r hr).2
  | next page hlast rest ih =>
    rw [allShown_cons] at hr
    rcases List.mem_append.mp hr with hr | hr
    · exact (page.mem r hr).2
    · intro k hk
      have hbelow := ih hr _ rfl
      exact hbelow.trans ((page.mem _ (List.mem_of_getLast? hlast)).2 k hk)

/-- Every row comes from the table of a page. -/
theorem Traversal.mem (h : Traversal key cursor pages more) {r : α} (hr : r ∈ allShown pages) :
    ∃ p ∈ pages, r ∈ p.1 := by
  induction h with
  | last page =>
    rw [allShown_cons, allShown_nil, List.append_nil] at hr
    exact ⟨_, List.mem_cons_self, (page.mem r hr).1⟩
  | next page hlast rest ih =>
    rw [allShown_cons] at hr
    rcases List.mem_append.mp hr with hr | hr
    · exact ⟨_, List.mem_cons_self, (page.mem r hr).1⟩
    · obtain ⟨p, hp, hmem⟩ := ih hr
      exact ⟨p, List.mem_cons_of_mem _ hp, hmem⟩

/-- The rows of all pages come in strictly decreasing order. -/
theorem Traversal.decreasing (h : Traversal key cursor pages more) :
    (allShown pages).Pairwise fun r r' => key r' < key r := by
  induction h with
  | last page =>
    rw [allShown_cons, allShown_nil, List.append_nil]
    exact page.decreasing
  | next page hlast rest ih =>
    rw [allShown_cons]
    refine List.pairwise_append.mpr ⟨page.decreasing, ih, fun r hr r' hr' => ?_⟩
    exact (rest.after hr' _ rfl).trans_le (page.last_le hlast hr)

theorem Traversal.nodup (h : Traversal key cursor pages more) : (allShown pages).Nodup := by
  refine h.decreasing.imp fun hlt he => ?_
  rw [he] at hlt
  exact lt_irrefl _ hlt

/-- A row that is in the table at every page is returned before the traversal ends. -/
theorem Traversal.complete (h : Traversal key cursor pages more) (hend : more = false) {r : α}
    (hrows : ∀ p ∈ pages, r ∈ p.1) (hafter : Beyond key cursor r) : r ∈ allShown pages := by
  induction h with
  | @last cursor rows shown more page =>
    rw [allShown_cons, allShown_nil, List.append_nil]
    by_contra hshown
    have hmore := (page.rest r (hrows _ List.mem_cons_self) hafter hshown).1
    rw [hend] at hmore
    cases hmore
  | @next cursor rows shown last pages more page hlast rest ih =>
    rw [allShown_cons, List.mem_append]
    by_cases hshown : r ∈ shown
    · exact Or.inl hshown
    · refine Or.inr (ih hend (fun p hp => hrows p (List.mem_cons_of_mem _ hp)) ?_)
      exact page.after_last hlast (hrows _ List.mem_cons_self) hafter hshown

/-- If the table stays the same, a traversal that has ended has returned the rows after the
    cursor and nothing else. -/
theorem Traversal.exact (h : Traversal key cursor pages more) (hend : more = false)
    {rows sorted : List α} (hrows : ∀ p ∈ pages, p.1 = rows)
    (hsorted : sorted.Pairwise fun r r' => key r' < key r)
    (hmem : ∀ r, r ∈ sorted ↔ r ∈ rows ∧ Beyond key cursor r) : allShown pages = sorted := by
  have : Std.Irrefl fun r r' : α => key r' < key r := ⟨fun r => lt_irrefl (key r)⟩
  have : Std.Antisymm fun r r' : α => key r' < key r :=
    ⟨fun r r' h₁ h₂ => absurd h₁ (lt_asymm h₂)⟩
  refine List.Pairwise.eq_of_mem_iff h.decreasing hsorted fun r => ?_
  rw [hmem r]
  constructor
  · intro hr
    obtain ⟨p, hp, hin⟩ := h.mem hr
    rw [hrows p hp] at hin
    exact ⟨hin, h.after hr⟩
  · rintro ⟨hr, hafter⟩
    refine h.complete hend (fun p hp => ?_) hafter
    rw [hrows p hp]
    exact hr

/-- If the table stays the same and has a row after the cursor, no page is empty. -/
theorem Traversal.shown_ne_nil (h : Traversal key cursor pages more) {rows : List α}
    (hrows : ∀ p ∈ pages, p.1 = rows) (hrow : ∃ r ∈ rows, Beyond key cursor r) :
    ∀ p ∈ pages, p.2 ≠ [] := by
  induction h with
  | @last cursor rows' shown more page =>
    intro p hp
    obtain rfl := List.mem_singleton.mp hp
    obtain ⟨r, hr, hafter⟩ := hrow
    intro (he : shown = [])
    have hmore : more = true := by
      refine (page.rest r ?_ hafter ?_).1
      · rw [show rows' = rows from hrows _ List.mem_cons_self]
        exact hr
      · rw [he]
        exact List.not_mem_nil
    exact (page.more hmore).1 he
  | @next cursor rows' shown last pages more page hlast rest ih =>
    have hsame : rows' = rows := hrows _ List.mem_cons_self
    obtain ⟨hne, r, hr, hafter, hshown⟩ := page.more rfl
    intro p hp
    rcases List.mem_cons.mp hp with rfl | hp
    · exact hne
    · refine ih (fun p hp => hrows p (List.mem_cons_of_mem _ hp)) ⟨r, ?_, ?_⟩ p hp
      · rw [← hsame]
        exact hr
      · exact page.after_last hlast hr hafter hshown

theorem length_le_allShown (h : ∀ p ∈ pages, p.2 ≠ []) : pages.length ≤ (allShown pages).length := by
  induction pages with
  | nil => exact le_refl 0
  | cons p pages ih =>
    have hp := List.length_pos_of_ne_nil (h p List.mem_cons_self)
    have hrest := ih fun p hp => h p (List.mem_cons_of_mem _ hp)
    rw [allShown_cons, List.length_append, List.length_cons]
    omega

/-- If the table stays the same, there are no more pages than rows, apart from an empty first
    page. -/
theorem Traversal.length_le (h : Traversal key cursor pages more) {rows sorted : List α}
    (hrows : ∀ p ∈ pages, p.1 = rows) (hmem : ∀ r, r ∈ sorted ↔ r ∈ rows ∧ Beyond key cursor r) :
    pages.length ≤ max 1 sorted.length := by
  by_cases hrow : ∃ r ∈ rows, Beyond key cursor r
  · have hpages := length_le_allShown (h.shown_ne_nil hrows hrow)
    have hsub : allShown pages ⊆ sorted := by
      intro r hr
      obtain ⟨p, hp, hin⟩ := h.mem hr
      rw [hrows p hp] at hin
      exact (hmem r).mpr ⟨hin, h.after hr⟩
    have hlength := (h.nodup.subperm hsub).length_le
    omega
  · cases h with
    | last page => exact le_max_left 1 _
    | @next _ rows' shown last pages _ page hlast rest =>
      have hsame : rows' = rows := hrows _ List.mem_cons_self
      obtain ⟨-, r, hr, hafter, -⟩ := page.more rfl
      rw [hsame] at hr
      exact absurd ⟨r, hr, hafter⟩ hrow

end SocialApi.Keyset
