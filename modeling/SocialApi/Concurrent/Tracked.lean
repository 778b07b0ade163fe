import SocialApi.Concurrent.Pool

/-!
# Ghost states that outlive their calls

`Pool.Inv` forgets the ghost state of a call that is over, and does not say which request a
ghost state belongs to. Where an invariant is about what calls have left behind, or about
requests, the ghost state is kept to the end and goes with the request (`Tracked`).
`X` is what holds of the ghost state of a call whose future was dropped.

* `Records.record_step`: a step that meets the guard keeps the invariant, by one condition
  for each kind of step.
* `Records.record_of_meets`: so does a run whose steps meet the guard.
* `Records.along_iff`: what the invariant gives holds along a run exactly when its steps meet
  a condition, if a step that does not meet it breaks it.
* `encard_update_same`, `encard_update_gain`, `encard_update_loss`: how many calls have a
  property after one of them has changed.
-/

namespace SocialApi.Concurrent.Pool

variable {ι σ κ E : Type} {Ans : E → Type} {α χ G : Type}

/-- How the ghost state of a call goes with its request and with what has become of it. -/
def Tracked (P : Protocol E Ans G) (T : κ → G → Prop) (Q : G → α → Prop) (X : G → Prop) :
    Option G → CallState κ E Ans α → Prop
  | γ, .idle => γ = none
  | γ, .running k p => ∃ g, γ = some g ∧ T k g ∧ P.Obeys Q g p
  | γ, .returned k a => ∃ g, γ = some g ∧ T k g ∧ Q g a
  | γ, .dropped k => ∃ g, γ = some g ∧ T k g ∧ X g

/-- `J` holds of the shared state and the ghost states of all calls that have been started. -/
def Record (P : Protocol E Ans G) (T : κ → G → Prop) (Q : G → α → Prop) (X : G → Prop)
    (J : σ → (ι → Option G) → Prop) (c : Configuration ι σ κ E Ans α) : Prop :=
  ∃ γ : ι → Option G, J c.shared γ ∧ ∀ i, Tracked P T Q X (γ i) (c.calls i)

/-- What has to be shown for `Record P T Q X J` to be kept by every step that meets `guard`. -/
structure Records [DecidableEq ι] (D : Pool ι σ κ E Ans α χ) (P : Protocol E Ans G)
    (T : κ → G → Prop)
    (Q : G → α → Prop) (X : G → Prop) (g₀ : κ → G) (J : σ → (ι → Option G) → Prop)
    (guard : Configuration ι σ κ E Ans α → Act ι κ χ → Prop) : Prop where
  prog : ∀ k, P.Obeys Q (g₀ k) (D.prog k)
  typed : ∀ k, T k (g₀ k)
  start : ∀ c i k s γ, guard c (.start i k) → J c.shared γ → γ i = none →
    D.start c.shared i k = some s → J s (Function.update γ i (some (g₀ k)))
  handle : ∀ c i x k e f s r γ g, guard c (.step i x) → J c.shared γ →
    (∀ j, Tracked P T Q X (γ j) (c.calls j)) → c.calls i = .running k (.op e f) → γ i = some g →
    T k g → P.asks g e → D.handle c.shared i e x = some (s, r) →
    ∃ g', P.answers g e r g' ∧ T k g' ∧ J s (Function.update γ i (some g'))
  drop : ∀ c i s γ g, guard c (.drop i) → J c.shared γ → γ i = some g →
    D.drop c.shared i = some s → J s γ ∧ X g
  env : ∀ c x s γ, guard c (.env x) → J c.shared γ → D.env c.shared x = some s → J s γ

variable {D : Pool ι σ κ E Ans α χ} {P : Protocol E Ans G} {T : κ → G → Prop} {Q : G → α → Prop}
  {X : G → Prop} {g₀ : κ → G} {J : σ → (ι → Option G) → Prop}
  {guard : Configuration ι σ κ E Ans α → Act ι κ χ → Prop} {c c' : Configuration ι σ κ E Ans α}

/-- Replacing one call and its ghost state keeps the correspondence. -/
theorem tracked_update [DecidableEq ι] {γ : ι → Option G} {calls : ι → CallState κ E Ans α}
    (h : ∀ j, Tracked P T Q X (γ j) (calls j)) {i : ι} {g : Option G} {cs : CallState κ E Ans α}
    (hi : Tracked P T Q X g cs) (j : ι) :
    Tracked P T Q X (Function.update γ i g j) (Function.update calls i cs j) := by
  by_cases hj : j = i
  · subst hj
    rw [Function.update_self, Function.update_self]
    exact hi
  · rw [Function.update_of_ne hj, Function.update_of_ne hj]
    exact h j

theorem tracked_settle {k : κ} {g : G} {p : Prog E Ans α} (hT : T k g) (hp : P.Obeys Q g p) :
    Tracked P T Q X (some g) (CallState.settle k p) := by
  cases p with
  | ret a => exact ⟨g, rfl, hT, hp⟩
  | op e f => exact ⟨g, rfl, hT, hp⟩

/-- Every step that meets the guard keeps the invariant. -/
theorem Records.record_step [DecidableEq ι] (S : Records D P T Q X g₀ J guard) {a : Act ι κ χ}
    (hc : Record P T Q X J c) (ha : guard c a) (h : D.machine.step c a = some c') :
    Record P T Q X J c' := by
  obtain ⟨γ, hJ, hT⟩ := hc
  rcases act_cases h with ⟨i, k, s, rfl, hi, hs, rfl⟩ | ⟨i, x, k, e, f, s, r, rfl, hi, hs, rfl⟩ |
    ⟨i, k, p, s, rfl, hi, hs, rfl⟩ | ⟨x, s, rfl, hs, rfl⟩
  · have hγ := hT i
    rw [hi] at hγ
    exact ⟨_, S.start c i k s γ ha hJ hγ hs,
      tracked_update hT (tracked_settle (S.typed k) (S.prog k))⟩
  · have hγ := hT i
    rw [hi] at hγ
    obtain ⟨g, hγ, htyped, hasks, hnext⟩ := hγ
    obtain ⟨g', hr, htyped', hJ'⟩ := S.handle c i x k e f s r γ g ha hJ hT hi hγ htyped hasks hs
    exact ⟨_, hJ', tracked_update hT (tracked_settle htyped' (hnext r g' hr))⟩
  · have hγ := hT i
    rw [hi] at hγ
    obtain ⟨g, hγ, htyped, -⟩ := hγ
    obtain ⟨hJ', hX⟩ := S.drop c i s γ g ha hJ hγ hs
    refine ⟨γ, hJ', fun j => ?_⟩
    have hdropped : Tracked P T Q X (some g) (.dropped k) := ⟨g, rfl, htyped, hX⟩
    have hupdate := tracked_update hT (i := i) hdropped j
    rw [← hγ, Function.update_eq_self] at hupdate
    exact hupdate
  · exact ⟨γ, S.env c x s γ ha hJ hs, hT⟩

/-- Before any call has been started there are no ghost states. -/
theorem record_init (hJ : J c.shared fun _ => none) (hidle : ∀ i, c.calls i = .idle) :
    Record P T Q X J c :=
  ⟨fun _ => none, hJ, fun i => by rw [hidle i]; rfl⟩

/-- A run whose steps meet the guard keeps the invariant. -/
theorem Records.record_of_meets [DecidableEq ι] (S : Records D P T Q X g₀ J guard)
    {acts : List (Act ι κ χ)}
    (hc : Record P T Q X J c) (hmeets : D.machine.Meets guard c acts)
    (hrun : D.machine.run c acts = some c') : Record P T Q X J c' :=
  (Machine.along_of_meets (fun _ _ _ h ha hs => S.record_step h ha hs) hc hmeets).last hrun

/-- What the invariant gives holds along a run whose steps all meet `K` exactly when they all
    meet `C`, if a step that meets only `K` leads to a configuration without it. -/
theorem Records.along_iff [DecidableEq ι] {K C : Configuration ι σ κ E Ans α → Act ι κ χ → Prop}
    {R : Configuration ι σ κ E Ans α → Prop}
    (S : Records D P T Q X g₀ J fun c a => K c a ∧ C c a) (hR : ∀ c, Record P T Q X J c → R c)
    (hbad : ∀ c a c', Record P T Q X J c → K c a → ¬ C c a → D.machine.step c a = some c' →
      ¬ R c')
    {acts : List (Act ι κ χ)} (hc : Record P T Q X J c) (hK : D.machine.Meets K c acts)
    (hrun : D.machine.run c acts = some c') :
    D.machine.Along R c acts ↔ D.machine.Meets C c acts := by
  constructor
  · intro h
    induction acts generalizing c with
    | nil => trivial
    | cons a acts ih =>
      obtain ⟨m, hstep, hrest⟩ := (Machine.run_cons _).mp hrun
      have hC : C c a := by
        by_contra hn
        refine hbad c a m hc hK.1 hn hstep ?_
        exact Machine.along_iff.mp (h.2 m hstep) [] acts m rfl rfl
      refine ⟨hC, fun m' hm' => ?_⟩
      cases hstep.symm.trans hm'
      exact ih (S.record_step hc ⟨hK.1, hC⟩ hstep) (hK.2 m hstep) hrest (h.2 m hstep)
  · intro hC
    exact (Machine.along_of_meets (fun _ _ _ h ha hs => S.record_step h ha hs) hc
      (hK.and hC)).mono hR

/-- A call that has been started has a ghost state that goes with its request. -/
theorem Tracked.of_request {γ : Option G} {cs : CallState κ E Ans α} {k : κ}
    (h : Tracked P T Q X γ cs) (hk : cs.request = some k) : ∃ g, γ = some g ∧ T k g := by
  cases cs with
  | idle => cases hk
  | running k' p =>
    cases hk
    obtain ⟨g, hγ, hT, -⟩ := h
    exact ⟨g, hγ, hT⟩
  | returned k' a =>
    cases hk
    obtain ⟨g, hγ, hT, -⟩ := h
    exact ⟨g, hγ, hT⟩
  | dropped k' =>
    cases hk
    obtain ⟨g, hγ, hT, -⟩ := h
    exact ⟨g, hγ, hT⟩

/-- A ghost state goes with the request of its call. -/
theorem Tracked.request {g : G} {cs : CallState κ E Ans α} (h : Tracked P T Q X (some g) cs) :
    ∃ k, cs.request = some k ∧ T k g := by
  cases cs with
  | idle => exact absurd h nofun
  | running k p =>
    obtain ⟨g', hg, hT, -⟩ := h
    rw [Option.some.inj hg]
    exact ⟨k, rfl, hT⟩
  | returned k a =>
    obtain ⟨g', hg, hT, -⟩ := h
    rw [Option.some.inj hg]
    exact ⟨k, rfl, hT⟩
  | dropped k =>
    obtain ⟨g', hg, hT, -⟩ := h
    rw [Option.some.inj hg]
    exact ⟨k, rfl, hT⟩

/-! ## Counting calls -/

section Counting

variable {β : Type} {B : β → Prop} {f : ι → β} {i : ι} {b : β}

variable [DecidableEq ι]

/-- A call that has the property before and after, or neither. -/
theorem encard_update_same (h : B b ↔ B (f i)) :
    {j | B (Function.update f i b j)} = {j | B (f j)} := by
  ext j
  rw [Set.mem_ofPred_eq, Set.mem_ofPred_eq]
  by_cases hj : j = i
  · subst hj
    rw [Function.update_self]
    exact h
  · rw [Function.update_of_ne hj]

/-- One more call has the property. -/
theorem encard_update_gain (hnot : ¬ B (f i)) (hb : B b) :
    {j | B (Function.update f i b j)}.encard = {j | B (f j)}.encard + 1 := by
  have hinsert : {j | B (Function.update f i b j)} = insert i {j | B (f j)} := by
    ext j
    rw [Set.mem_insert_iff, Set.mem_ofPred_eq, Set.mem_ofPred_eq]
    by_cases hj : j = i
    · subst hj
      rw [Function.update_self]
      exact iff_of_true hb (Or.inl rfl)
    · rw [Function.update_of_ne hj]
      exact ⟨Or.inr, fun h => h.resolve_left hj⟩
  have hout : i ∉ {j | B (f j)} := hnot
  rw [hinsert, Set.encard_insert_of_notMem hout]

/-- One call fewer has the property. -/
theorem encard_update_loss (h : B (f i)) (hb : ¬ B b) :
    {j | B (f j)}.encard = {j | B (Function.update f i b j)}.encard + 1 := by
  have hself : ¬ B (Function.update f i b i) := by
    rw [Function.update_self]
    exact hb
  have hgain := encard_update_gain (f := Function.update f i b) hself h
  rw [Function.update_idem, Function.update_eq_self] at hgain
  exact hgain

end Counting

end SocialApi.Concurrent.Pool
