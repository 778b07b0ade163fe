import Mathlib

/-!
# Labelled machines and their runs

A machine is a set of initial states and a partial step function on labels.
Everything here is about arbitrary machines.

* `Machine.Reachable.invariant`: what holds initially and is kept by every
  step holds in every reachable state.
* `Machine.Along`, `Machine.Meets`: a property of every state of a run, and a
  condition on every step of a run.
* `Machine.along_of_meets`: an invariant kept by the steps that meet a condition
  holds along every run whose steps meet it.
* `Machine.along_iff_meets`: if a step that breaks the condition also breaks
  the property, the property holds along a run exactly when every step of the
  run meets the condition.
* `Machine.meets_onRun`: a run's steps are steps of that run, so that what is said of a
  step may look at the whole run.
* `Machine.meets_of_last`: the same from the last state alone, if what a step that
  breaks the condition leads to is never left.
-/

namespace SocialApi.Concurrent

/-- Initial states and a partial, labelled step function. -/
structure Machine (σ α : Type) where
  init : σ → Prop
  step : σ → α → Option σ

namespace Machine

variable {σ α : Type} (M : Machine σ α)

/-- The state after the labels `as`, if every one of them can be taken. -/
def run : σ → List α → Option σ
  | s, [] => some s
  | s, a :: as => (M.step s a).bind fun s' => run s' as

/-- `s` is the last state of some run from an initial state. -/
def Reachable (s : σ) : Prop := ∃ s₀ as, M.init s₀ ∧ M.run s₀ as = some s

/-- `P` holds in every state of the run of `as` from `s`. -/
def Along (P : σ → Prop) : σ → List α → Prop
  | s, [] => P s
  | s, a :: as => P s ∧ ∀ s', M.step s a = some s' → Along P s' as

/-- Every step of the run of `as` from `s` meets `C`, a condition on the state
    before the step and on its label. -/
def Meets (C : σ → α → Prop) : σ → List α → Prop
  | _, [] => True
  | s, a :: as => C s a ∧ ∀ s', M.step s a = some s' → Meets C s' as

/-- `Meets` for a condition that can be computed. -/
def meetsAll (C : σ → α → Bool) : σ → List α → Bool
  | _, [] => true
  | s, a :: as => C s a && (M.step s a).all fun s' => meetsAll C s' as

@[simp] theorem run_nil (s : σ) : M.run s [] = some s := rfl

theorem run_cons {s t : σ} {a : α} {as : List α} :
    M.run s (a :: as) = some t ↔ ∃ s', M.step s a = some s' ∧ M.run s' as = some t := by
  simp only [run, Option.bind_eq_some_iff]

theorem run_append {s t : σ} {as bs : List α} :
    M.run s (as ++ bs) = some t ↔ ∃ s', M.run s as = some s' ∧ M.run s' bs = some t := by
  induction as generalizing s with
  | nil => simp
  | cons a as ih =>
    rw [List.cons_append, run_cons]
    constructor
    · rintro ⟨s₁, h₁, h₂⟩
      obtain ⟨s₂, h₃, h₄⟩ := ih.mp h₂
      exact ⟨s₂, M.run_cons.mpr ⟨s₁, h₁, h₃⟩, h₄⟩
    · rintro ⟨s₂, h₂, h₃⟩
      obtain ⟨s₁, h₁, h₄⟩ := M.run_cons.mp h₂
      exact ⟨s₁, h₁, ih.mpr ⟨s₂, h₄, h₃⟩⟩

theorem run_snoc {s t : σ} {a : α} {as : List α} :
    M.run s (as ++ [a]) = some t ↔ ∃ s', M.run s as = some s' ∧ M.step s' a = some t := by
  simp [run_append, run]

variable {M}

theorem Reachable.initial {s : σ} (h : M.init s) : M.Reachable s := ⟨s, [], h, rfl⟩

theorem Reachable.run {s t : σ} {as : List α} (h : M.Reachable s) (hr : M.run s as = some t) :
    M.Reachable t := by
  obtain ⟨s₀, bs, h₀, hrun⟩ := h
  exact ⟨s₀, bs ++ as, h₀, (run_append M).mpr ⟨s, hrun, hr⟩⟩

/-- A run keeps what each of its steps keeps. -/
theorem run_keeps {I : σ → Prop} (hI : ∀ s a s', I s → M.step s a = some s' → I s') :
    ∀ (as : List α) (s t : σ), I s → M.run s as = some t → I t := by
  intro as
  induction as with
  | nil => intro s t hs hrun; cases hrun; exact hs
  | cons a as ih =>
    intro s t hs hrun
    obtain ⟨s', h₁, h₂⟩ := (run_cons M).mp hrun
    exact ih s' t (hI s a s' hs h₁) h₂

/-- What holds initially and is kept by every step holds in every reachable state. -/
theorem Reachable.invariant {I : σ → Prop} (h₀ : ∀ s, M.init s → I s)
    (hI : ∀ s a s', I s → M.step s a = some s' → I s') {s : σ} (h : M.Reachable s) : I s := by
  obtain ⟨s₀, as, hi, hrun⟩ := h
  exact run_keeps hI as s₀ s (h₀ s₀ hi) hrun

/-! ## Properties along a run and conditions on its steps -/

/-- `Along` speaks about the state after every prefix of the run. -/
theorem along_iff {P : σ → Prop} {s : σ} {as : List α} :
    M.Along P s as ↔ ∀ bs cs t, as = bs ++ cs → M.run s bs = some t → P t := by
  induction as generalizing s with
  | nil =>
    constructor
    · intro h bs cs t hsplit hrun
      obtain ⟨rfl, -⟩ := List.nil_eq_append_iff.mp hsplit
      cases hrun; exact h
    · intro h; exact h [] [] s rfl rfl
  | cons a as ih =>
    constructor
    · rintro ⟨hP, hrest⟩ bs cs t hsplit hrun
      cases bs with
      | nil => cases hrun; exact hP
      | cons b bs =>
        obtain ⟨rfl, htail⟩ := List.cons_eq_cons.mp hsplit
        obtain ⟨s', h₁, h₂⟩ := (run_cons M).mp hrun
        exact ih.mp (hrest s' h₁) bs cs t htail h₂
    · intro h
      refine ⟨h [] (a :: as) s rfl rfl, fun s' hs' => ih.mpr ?_⟩
      intro bs cs t hsplit hrun
      exact h (a :: bs) cs t (by rw [hsplit]; rfl) ((run_cons M).mpr ⟨s', hs', hrun⟩)

theorem meets_of_meetsAll {C : σ → α → Prop} {C' : σ → α → Bool}
    (hC : ∀ s a, C' s a = true → C s a) {s : σ} {as : List α} (h : M.meetsAll C' s as = true) :
    M.Meets C s as := by
  induction as generalizing s with
  | nil => trivial
  | cons a as ih =>
    obtain ⟨h₁, h₂⟩ := Bool.and_eq_true_iff.mp h
    refine ⟨hC s a h₁, fun s' hs' => ih ?_⟩
    rw [hs'] at h₂
    exact h₂

theorem meets_of_forall {C : σ → α → Prop} (hC : ∀ s a, C s a) (s : σ) (as : List α) :
    M.Meets C s as := by
  induction as generalizing s with
  | nil => trivial
  | cons a as ih => exact ⟨hC s a, fun s' _ => ih s'⟩

/-- A condition on the labels alone. -/
theorem meets_of_labels {C : α → Prop} {as : List α} (hC : ∀ a ∈ as, C a) (s : σ) :
    M.Meets (fun _ => C) s as := by
  induction as generalizing s with
  | nil => trivial
  | cons a as ih =>
    exact ⟨hC a List.mem_cons_self, fun s' _ => ih (fun b hb => hC b (List.mem_cons_of_mem a hb)) s'⟩

theorem Along.mono {P P' : σ → Prop} (hP : ∀ s, P s → P' s) {s : σ} {as : List α}
    (h : M.Along P s as) : M.Along P' s as :=
  along_iff.mpr fun bs cs t hsplit hrun => hP t (along_iff.mp h bs cs t hsplit hrun)

theorem Along.last {P : σ → Prop} {s t : σ} {as : List α} (h : M.Along P s as)
    (hrun : M.run s as = some t) : P t :=
  along_iff.mp h as [] t (by simp) hrun

/-- A run whose steps meet a condition meets what follows from it. -/
theorem Meets.mono {C C' : σ → α → Prop} (hC : ∀ s a, C s a → C' s a) {s : σ} {as : List α}
    (h : M.Meets C s as) : M.Meets C' s as := by
  induction as generalizing s with
  | nil => trivial
  | cons a as ih => exact ⟨hC s a h.1, fun s' hs' => ih (h.2 s' hs')⟩

/-- A run in two parts. -/
theorem meets_append {C : σ → α → Prop} {s : σ} {as bs : List α} (h : M.Meets C s as)
    (hbs : ∀ t, M.run s as = some t → M.Meets C t bs) : M.Meets C s (as ++ bs) := by
  induction as generalizing s with
  | nil => exact hbs s rfl
  | cons a as ih =>
    refine ⟨h.1, fun s' hs' => ih (h.2 s' hs') fun t ht => hbs t ?_⟩
    exact (run_cons M).mpr ⟨s', hs', ht⟩

theorem Meets.append {C : σ → α → Prop} {s t : σ} {as bs : List α}
    (h : M.Meets C s (as ++ bs)) (hrun : M.run s as = some t) : M.Meets C t bs := by
  induction as generalizing s with
  | nil => cases hrun; exact h
  | cons a as ih =>
    obtain ⟨s', h₁, h₂⟩ := (run_cons M).mp hrun
    exact ih (h.2 s' h₁) h₂

/-- The condition at one step of a run. -/
theorem Meets.at {C : σ → α → Prop} {s t : σ} {as bs : List α} {a : α}
    (h : M.Meets C s (as ++ a :: bs)) (hrun : M.run s as = some t) : C t a :=
  (h.append hrun).1

/-- A run that is taken to its end and meets `C` meets what follows from `C` at every step
    from an invariant that such steps keep. -/
theorem Meets.of_keeps {I : σ → Prop} {C D : σ → α → Prop}
    (h : ∀ s a s', I s → C s a → M.step s a = some s' → I s' ∧ D s a) {s t : σ} {as : List α}
    (hs : I s) (hrun : M.run s as = some t) (hC : M.Meets C s as) : M.Meets D s as := by
  induction as generalizing s with
  | nil => trivial
  | cons a as ih =>
    obtain ⟨s', h₁, h₂⟩ := (run_cons M).mp hrun
    obtain ⟨hs', hD⟩ := h s a s' hs hC.1 h₁
    refine ⟨hD, fun s'' h₃ => ?_⟩
    cases h₁.symm.trans h₃
    exact ih hs' h₂ (hC.2 s' h₁)

/-- An invariant kept by the steps that meet `C` holds along a run that meets it. -/
theorem along_of_meets {I : σ → Prop} {C : σ → α → Prop}
    (hI : ∀ s a s', I s → C s a → M.step s a = some s' → I s') {s : σ} {as : List α}
    (hs : I s) (h : M.Meets C s as) : M.Along I s as := by
  induction as generalizing s with
  | nil => exact hs
  | cons a as ih => exact ⟨hs, fun s' hs' => ih (hI s a s' hs h.1 hs') (h.2 s' hs')⟩

/-- If the steps that meet `C` keep the invariant `I`, which gives `P`, and a step
    that does not meet `C` leads to a state without `P`, then `P` holds along a
    run exactly when all its steps meet `C`. -/
theorem along_iff_meets {I P : σ → Prop} {C : σ → α → Prop}
    (hI : ∀ s a s', I s → C s a → M.step s a = some s' → I s') (hP : ∀ s, I s → P s)
    (hbad : ∀ s a s', I s → ¬ C s a → M.step s a = some s' → ¬ P s') {s t : σ} {as : List α}
    (hs : I s) (hrun : M.run s as = some t) : M.Along P s as ↔ M.Meets C s as := by
  constructor
  · intro h
    induction as generalizing s with
    | nil => trivial
    | cons a as ih =>
      obtain ⟨s', h₁, h₂⟩ := (run_cons M).mp hrun
      have hC : C s a := by
        by_contra hn
        refine hbad s a s' hs hn h₁ ?_
        exact along_iff.mp (h.2 s' h₁) [] as s' rfl rfl
      refine ⟨hC, fun s'' h₃ => ?_⟩
      cases h₁.symm.trans h₃
      exact ih (hI s a s' hs hC h₁) h₂ (h.2 s' h₁)
  · intro h
    exact (along_of_meets hI hs h).mono hP

/-- If a step that does not meet `C` leads into `L`, which no step leaves, then a run that
    ends outside `L` meets `C` throughout. -/
theorem meets_of_last {I L : σ → Prop} {C : σ → α → Prop}
    (hI : ∀ s a s', I s → C s a → M.step s a = some s' → I s')
    (hbad : ∀ s a s', I s → ¬ C s a → M.step s a = some s' → L s')
    (hL : ∀ s a s', L s → M.step s a = some s' → L s') {s t : σ} {as : List α}
    (hs : I s) (hrun : M.run s as = some t) (ht : ¬ L t) : M.Meets C s as := by
  induction as generalizing s with
  | nil => trivial
  | cons a as ih =>
    obtain ⟨s', h₁, h₂⟩ := (run_cons M).mp hrun
    have hC : C s a := by
      by_contra hn
      exact ht (run_keeps hL as s' t (hbad s a s' hs hn h₁) h₂)
    refine ⟨hC, fun s'' h₃ => ?_⟩
    cases h₁.symm.trans h₃
    exact ih (hI s a s' hs hC h₁) h₂

/-- The step taken in state `s` with label `a` is one of the run of `as` from `s₀`. -/
def OnRun (M : Machine σ α) (s₀ : σ) (as : List α) (s : σ) (a : α) : Prop :=
  ∃ bs cs, as = bs ++ a :: cs ∧ M.run s₀ bs = some s

/-- Every step of a run is one of its steps. -/
theorem meets_onRun (M : Machine σ α) (s₀ : σ) (as : List α) : M.Meets (M.OnRun s₀ as) s₀ as := by
  have hsuffix : ∀ cs bs s, as = bs ++ cs → M.run s₀ bs = some s →
      M.Meets (M.OnRun s₀ as) s cs := by
    intro cs
    induction cs with
    | nil => intro bs s _ _; trivial
    | cons a cs ih =>
      intro bs s hsplit hrun
      refine ⟨⟨bs, cs, hsplit, hrun⟩, fun s' hs' => ih (bs ++ [a]) s' ?_ ?_⟩
      · rw [hsplit, List.append_assoc]
        rfl
      · exact (run_snoc M).mpr ⟨s, hrun, hs'⟩
  exact hsuffix as [] s₀ rfl rfl

theorem Meets.and {C D : σ → α → Prop} {s : σ} {as : List α} (hC : M.Meets C s as)
    (hD : M.Meets D s as) : M.Meets (fun s a => C s a ∧ D s a) s as := by
  induction as generalizing s with
  | nil => trivial
  | cons a as ih => exact ⟨⟨hC.1, hD.1⟩, fun s' hs' => ih (hC.2 s' hs') (hD.2 s' hs')⟩

end Machine

end SocialApi.Concurrent
