import SocialApi.Concurrent.Machine
import SocialApi.Concurrent.Protocol

/-!
# Pools of interleaved calls

A pool runs any number of calls over one shared state. A call `i : ι` is started
once with a request `k : κ`, then performs the operations of `prog k` one at a
time in any interleaving with the other calls, and is over when its program has
ended or when its future is dropped. A label carries the outcome of whatever the
shared state leaves open (`χ`: failures, clock readings, time-outs).

`Pool.Sound` reduces an invariant over all interleavings to one condition per
kind of step; `Pool.Sound.reachable` is the invariant. `Pool.Keeps.returns_of_meets` says
what the invariant gives of the results of the calls that have returned.
-/

namespace SocialApi.Concurrent

/-- What has become of a call. -/
inductive CallState (κ E : Type) (Ans : E → Type) (α : Type) : Type where
  | idle
  | running (k : κ) (p : Prog E Ans α)
  | returned (k : κ) (a : α)
  | dropped (k : κ)

namespace CallState

variable {κ E : Type} {Ans : E → Type} {α : Type}

/-- A call whose remaining program is `p`; it has returned when `p` has ended. -/
def settle (k : κ) : Prog E Ans α → CallState κ E Ans α
  | .ret a => .returned k a
  | .op e f => .running k (.op e f)

/-- The call has begun and is not over. -/
def Active : CallState κ E Ans α → Prop
  | .running _ _ => True
  | _ => False

instance (c : CallState κ E Ans α) : Decidable c.Active :=
  match c with
  | .idle => isFalse id
  | .running _ _ => isTrue trivial
  | .returned _ _ => isFalse id
  | .dropped _ => isFalse id

/-- The request of a call, once it has been started. -/
def request : CallState κ E Ans α → Option κ
  | .idle => none
  | .running k _ => some k
  | .returned k _ => some k
  | .dropped k => some k

/-- The request and the result of a call that has returned. -/
def result : CallState κ E Ans α → Option (κ × α)
  | .returned k a => some (k, a)
  | _ => none

theorem returned_of_result {c : CallState κ E Ans α} {k : κ} {a : α}
    (h : c.result = some (k, a)) : c = .returned k a := by
  cases c with
  | returned k' a' => cases h; rfl
  | idle => cases h
  | running k' p => cases h
  | dropped k' => cases h

end CallState

/-- The programs of the calls and what their operations do to the shared state. -/
structure Pool (ι σ κ E : Type) (Ans : E → Type) (α χ : Type) where
  init : σ → Prop
  prog : κ → Prog E Ans α
  start : σ → ι → κ → Option σ
  handle : σ → ι → (e : E) → χ → Option (σ × Ans e)
  drop : σ → ι → Option σ
  env : σ → χ → Option σ

/-- A label: call `i` starts with request `k`, performs its next operation, or is
    dropped; or the environment acts. -/
inductive Act (ι κ χ : Type) : Type where
  | start (i : ι) (k : κ)
  | step (i : ι) (x : χ)
  | drop (i : ι)
  | env (x : χ)

/-- The shared state and every call. -/
structure Configuration (ι σ κ E : Type) (Ans : E → Type) (α : Type) where
  shared : σ
  calls : ι → CallState κ E Ans α

namespace Pool

variable {ι σ κ E : Type} {Ans : E → Type} {α χ G : Type}

variable [DecidableEq ι]

/-- The effect of one label. -/
def act (D : Pool ι σ κ E Ans α χ) (c : Configuration ι σ κ E Ans α) :
    Act ι κ χ → Option (Configuration ι σ κ E Ans α)
  | .start i k =>
    match c.calls i with
    | .idle => (D.start c.shared i k).map fun s =>
        ⟨s, Function.update c.calls i (.settle k (D.prog k))⟩
    | _ => none
  | .step i x =>
    match c.calls i with
    | .running k (.op e f) => (D.handle c.shared i e x).map fun sr =>
        ⟨sr.1, Function.update c.calls i (.settle k (f sr.2))⟩
    | _ => none
  | .drop i =>
    match c.calls i with
    | .running k _ => (D.drop c.shared i).map fun s =>
        ⟨s, Function.update c.calls i (.dropped k)⟩
    | _ => none
  | .env x => (D.env c.shared x).map fun s => ⟨s, c.calls⟩

/-- All interleavings of the pool's calls. -/
def machine (D : Pool ι σ κ E Ans α χ) :
    Machine (Configuration ι σ κ E Ans α) (Act ι κ χ) where
  init c := D.init c.shared ∧ ∀ i, c.calls i = .idle
  step := D.act

/-- What one label does to a configuration, one case for each kind of label. -/
theorem act_cases {D : Pool ι σ κ E Ans α χ} {c c' : Configuration ι σ κ E Ans α} {a : Act ι κ χ}
    (h : D.act c a = some c') :
    (∃ i k s, a = .start i k ∧ c.calls i = .idle ∧ D.start c.shared i k = some s ∧
      c' = ⟨s, Function.update c.calls i (.settle k (D.prog k))⟩) ∨
    (∃ i x k e f s r, a = .step i x ∧ c.calls i = .running k (.op e f) ∧
      D.handle c.shared i e x = some (s, r) ∧
      c' = ⟨s, Function.update c.calls i (.settle k (f r))⟩) ∨
    (∃ i k p s, a = .drop i ∧ c.calls i = .running k p ∧ D.drop c.shared i = some s ∧
      c' = ⟨s, Function.update c.calls i (.dropped k)⟩) ∨
    (∃ x s, a = .env x ∧ D.env c.shared x = some s ∧ c' = ⟨s, c.calls⟩) := by
  cases a with
  | start i k =>
    simp only [act] at h
    split at h
    · rename_i hi
      obtain ⟨s, hs, rfl⟩ := Option.map_eq_some_iff.mp h
      exact Or.inl ⟨i, k, s, rfl, hi, hs, rfl⟩
    · cases h
  | step i x =>
    simp only [act] at h
    split at h
    · rename_i k e f hi
      obtain ⟨⟨s, r⟩, hs, rfl⟩ := Option.map_eq_some_iff.mp h
      exact Or.inr (Or.inl ⟨i, x, k, e, f, s, r, rfl, hi, hs, rfl⟩)
    · cases h
  | drop i =>
    simp only [act] at h
    split at h
    · rename_i k p hi
      obtain ⟨s, hs, rfl⟩ := Option.map_eq_some_iff.mp h
      exact Or.inr (Or.inr (Or.inl ⟨i, k, p, s, rfl, hi, hs, rfl⟩))
    · cases h
  | env x =>
    simp only [act] at h
    obtain ⟨s, hs, rfl⟩ := Option.map_eq_some_iff.mp h
    exact Or.inr (Or.inr (Or.inr ⟨x, s, rfl, hs, rfl⟩))

/-- The next operation of a running call. -/
theorem act_step {D : Pool ι σ κ E Ans α χ} {c c' : Configuration ι σ κ E Ans α} {i : ι} {x : χ}
    {k : κ} {e : E} {f : Ans e → Prog E Ans α} (h : D.machine.step c (.step i x) = some c')
    (hi : c.calls i = .running k (.op e f)) :
    ∃ s r, D.handle c.shared i e x = some (s, r) ∧
      c' = ⟨s, Function.update c.calls i (.settle k (f r))⟩ := by
  have h : D.act c (.step i x) = some c' := h
  simp only [act, hi] at h
  obtain ⟨⟨s, r⟩, hs, rfl⟩ := Option.map_eq_some_iff.mp h
  exact ⟨s, r, hs, rfl⟩

/-- Dropping a running call. -/
theorem act_drop {D : Pool ι σ κ E Ans α χ} {c c' : Configuration ι σ κ E Ans α} {i : ι} {k : κ}
    {p : Prog E Ans α} (h : D.machine.step c (.drop i) = some c')
    (hi : c.calls i = .running k p) :
    ∃ s, D.drop c.shared i = some s ∧ c' = ⟨s, Function.update c.calls i (.dropped k)⟩ := by
  have h : D.act c (.drop i) = some c' := h
  simp only [act, hi] at h
  obtain ⟨s, hs, rfl⟩ := Option.map_eq_some_iff.mp h
  exact ⟨s, hs, rfl⟩

/-- Every call in progress has an operation ahead. -/
def Ahead (c : Configuration ι σ κ E Ans α) : Prop :=
  ∀ i k p, c.calls i = .running k p → ∃ e f, p = .op e f

theorem ahead_step {D : Pool ι σ κ E Ans α χ} (c : Configuration ι σ κ E Ans α) (a : Act ι κ χ)
    (c' : Configuration ι σ κ E Ans α) (hc : Ahead c) (h : D.machine.step c a = some c') :
    Ahead c' := by
  have hupdate : ∀ (s : σ) i (cs : CallState κ E Ans α),
      (∀ k p, cs = .running k p → ∃ e f, p = .op e f) →
      Ahead ⟨s, Function.update c.calls i cs⟩ := by
    intro s i cs hcs j k p hj
    have hj : Function.update c.calls i cs j = .running k p := hj
    by_cases hji : j = i
    · subst hji
      rw [Function.update_self] at hj
      exact hcs k p hj
    · rw [Function.update_of_ne hji] at hj
      exact hc j k p hj
  have hsettle : ∀ (k : κ) (p : Prog E Ans α) (k' : κ) (p' : Prog E Ans α),
      CallState.settle k p = CallState.running k' p' → ∃ e f, p' = .op e f := by
    intro k p k' p' hp
    cases p with
    | ret a => cases hp
    | op e f => cases hp; exact ⟨e, f, rfl⟩
  rcases act_cases h with ⟨i, k, s, -, -, -, rfl⟩ | ⟨i, x, k, e, f, s, r, -, -, -, rfl⟩ |
    ⟨i, k, p, s, -, -, -, rfl⟩ | ⟨x, s, -, -, rfl⟩
  · exact hupdate s i _ fun k' p' => hsettle k _ k' p'
  · exact hupdate s i _ fun k' p' => hsettle k _ k' p'
  · exact hupdate s i _ fun k' p' hp => (by cases hp)
  · exact hc

/-- So it is in every reachable configuration. -/
theorem ahead_of_reachable {D : Pool ι σ κ E Ans α χ} {c : Configuration ι σ κ E Ans α}
    (h : D.machine.Reachable c) : Ahead c :=
  h.invariant (fun s hs i k p hi => by rw [hs.2 i] at hi; cases hi) ahead_step

/-! ## Invariants over all interleavings -/

/-- How the ghost state of a call goes with what has become of the call: a running call
    obeys the protocol from its ghost state on, and a call that has returned `a` ended in
    a ghost state with `Q`. -/
def Follows (P : Protocol E Ans G) (Q : κ → G → α → Prop) :
    Option G → CallState κ E Ans α → Prop
  | γ, .running k p => ∃ g, γ = some g ∧ P.Obeys (Q k) g p
  | γ, .returned k a => γ = none ∧ ∃ g, Q k g a
  | γ, .idle => γ = none
  | γ, .dropped _ => γ = none

/-- A call that is not running has no ghost state. -/
theorem Follows.none_of_not_active {P : Protocol E Ans G} {Q : κ → G → α → Prop} {γ : Option G}
    {c : CallState κ E Ans α} (h : Follows P Q γ c) (hc : ¬ c.Active) : γ = none := by
  cases c with
  | running k p => exact absurd trivial hc
  | returned k a => exact h.1
  | idle => exact h
  | dropped k => exact h

/-- `J` holds of the shared state and the ghost states of all calls. -/
def Inv (P : Protocol E Ans G) (Q : κ → G → α → Prop) (J : σ → (ι → Option G) → Prop)
    (c : Configuration ι σ κ E Ans α) : Prop :=
  ∃ γ : ι → Option G, J c.shared γ ∧ ∀ i, Follows P Q (γ i) (c.calls i)

/-- What has to be shown for `Inv P Q J` to be kept by every step that meets `guard`:
    the programs obey the protocol, and starting, answering an operation, returning,
    dropping and the environment each keep `J`. -/
structure Keeps (D : Pool ι σ κ E Ans α χ) (P : Protocol E Ans G) (Q : κ → G → α → Prop)
    (g₀ : κ → G) (J : σ → (ι → Option G) → Prop)
    (guard : Configuration ι σ κ E Ans α → Act ι κ χ → Prop) : Prop where
  prog : ∀ k, P.Obeys (Q k) (g₀ k) (D.prog k)
  start : ∀ c i k s γ, guard c (.start i k) → J c.shared γ → γ i = none →
    D.start c.shared i k = some s → J s (Function.update γ i (some (g₀ k)))
  handle : ∀ c i x k e f s r γ g, guard c (.step i x) → J c.shared γ →
    (∀ j, Follows P Q (γ j) (c.calls j)) → c.calls i = .running k (.op e f) → γ i = some g →
    P.asks g e → D.handle c.shared i e x = some (s, r) →
    ∃ g', P.answers g e r g' ∧ J s (Function.update γ i (some g'))
  ret : ∀ s i k γ g a, J s γ → γ i = some g → Q k g a → J s (Function.update γ i none)
  drop : ∀ c i k p s γ g, guard c (.drop i) → J c.shared γ →
    (∀ j, Follows P Q (γ j) (c.calls j)) → c.calls i = .running k p → γ i = some g →
    D.drop c.shared i = some s → J s (Function.update γ i none)
  env : ∀ c x s γ, guard c (.env x) → J c.shared γ → D.env c.shared x = some s → J s γ

/-- `Keeps`, and `J` holds initially. -/
structure Sound (D : Pool ι σ κ E Ans α χ) (P : Protocol E Ans G) (Q : κ → G → α → Prop)
    (g₀ : κ → G) (J : σ → (ι → Option G) → Prop)
    (guard : Configuration ι σ κ E Ans α → Act ι κ χ → Prop) : Prop
    extends Keeps D P Q g₀ J guard where
  init : ∀ s, D.init s → J s fun _ => none

variable {D : Pool ι σ κ E Ans α χ} {P : Protocol E Ans G} {Q : κ → G → α → Prop} {g₀ : κ → G}
  {J : σ → (ι → Option G) → Prop} {guard : Configuration ι σ κ E Ans α → Act ι κ χ → Prop}

/-- Whose ghost state it is after that of call `i` has been replaced. -/
theorem ghost_of_update {γ : ι → Option G} {i j : ι} {γ' : Option G} {g : G}
    (hj : Function.update γ i γ' j = some g) : (j = i ∧ γ' = some g) ∨ (j ≠ i ∧ γ j = some g) := by
  by_cases hji : j = i
  · subst hji
    rw [Function.update_self] at hj
    exact Or.inl ⟨rfl, hj⟩
  · rw [Function.update_of_ne hji] at hj
    exact Or.inr ⟨hji, hj⟩

/-- Replacing one call and its ghost state keeps the correspondence. -/
theorem follows_update {γ : ι → Option G} {calls : ι → CallState κ E Ans α}
    (h : ∀ j, Follows P Q (γ j) (calls j)) {i : ι} {g : Option G} {c : CallState κ E Ans α}
    (hi : Follows P Q g c) :
    ∀ j, Follows P Q (Function.update γ i g j) (Function.update calls i c j) := by
  intro j
  by_cases hj : j = i
  · subst hj; simpa using hi
  · simpa [Function.update_of_ne hj] using h j

/-- A call that goes on with `p` in ghost state `g` keeps the invariant, also when `p`
    has ended and the call returns. -/
theorem Keeps.settle (S : Keeps D P Q g₀ J guard) {s : σ} {γ : ι → Option G}
    {calls : ι → CallState κ E Ans α} {i : ι} {g : G} {k : κ} {p : Prog E Ans α}
    (h : ∀ j, Follows P Q (γ j) (calls j)) (hJ : J s (Function.update γ i (some g)))
    (hp : P.Obeys (Q k) g p) : Inv P Q J ⟨s, Function.update calls i (.settle k p)⟩ := by
  cases p with
  | ret a =>
    refine ⟨Function.update γ i none, ?_, follows_update h ⟨rfl, g, hp⟩⟩
    simpa using S.ret s i k _ g a hJ (by simp) hp
  | op e f => exact ⟨_, hJ, follows_update h ⟨g, rfl, hp⟩⟩

theorem Sound.inv_init (S : Sound D P Q g₀ J guard) {c : Configuration ι σ κ E Ans α}
    (h : D.machine.init c) : Inv P Q J c :=
  ⟨fun _ => none, S.init _ h.1, fun i => by rw [h.2 i]; rfl⟩

/-- Every step that meets the guard keeps the invariant. -/
theorem Keeps.inv_step (S : Keeps D P Q g₀ J guard) (c : Configuration ι σ κ E Ans α) (a : Act ι κ χ)
    (c' : Configuration ι σ κ E Ans α) (hc : Inv P Q J c) (ha : guard c a)
    (h : D.machine.step c a = some c') : Inv P Q J c' := by
  obtain ⟨γ, hJ, hF⟩ := hc
  rcases act_cases h with ⟨i, k, s, rfl, hi, hs, rfl⟩ | ⟨i, x, k, e, f, s, r, rfl, hi, hs, rfl⟩ |
    ⟨i, k, p, s, rfl, hi, hs, rfl⟩ | ⟨x, s, rfl, hs, rfl⟩
  · have hγ : γ i = none := by have := hF i; rw [hi] at this; exact this
    exact S.settle hF (S.start c i k s γ ha hJ hγ hs) (S.prog k)
  · obtain ⟨g, hγ, hp⟩ := by have := hF i; rw [hi] at this; exact this
    obtain ⟨g', hr, hJ'⟩ := S.handle c i x k e f s r γ g ha hJ hF hi hγ hp.1 hs
    exact S.settle hF hJ' (hp.2 r g' hr)
  · obtain ⟨g, hγ, -⟩ := by have := hF i; rw [hi] at this; exact this
    exact ⟨_, S.drop c i k p s γ g ha hJ hF hi hγ hs, follows_update hF rfl⟩
  · exact ⟨γ, S.env c x s γ ha hJ hs, hF⟩

/-- With no guard, the invariant holds in every reachable configuration. -/
theorem Sound.reachable (S : Sound D P Q g₀ J fun _ _ => True) {c : Configuration ι σ κ E Ans α}
    (h : D.machine.Reachable c) : Inv P Q J c :=
  h.invariant (fun _ h₀ => S.inv_init h₀) fun c a c' hc hs => S.inv_step c a c' hc trivial hs

/-! ## Returned calls -/

/-- `R` holds of the result of every call that has returned. -/
def Returns (R : σ → ι → κ → α → Prop) (c : Configuration ι σ κ E Ans α) : Prop :=
  ∀ i k a, c.calls i = .returned k a → R c.shared i k a

/-- What holds of a call when it returns and is not undone by any step. -/
theorem Keeps.returns_step (S : Keeps D P Q g₀ J guard) {R : σ → ι → κ → α → Prop}
    (hret : ∀ s i k γ g a, J s γ → γ i = some g → Q k g a → R s i k a)
    {c c' : Configuration ι σ κ E Ans α} {a : Act ι κ χ}
    (hkept : ∀ i k b, c.calls i = .returned k b → R c.shared i k b → R c'.shared i k b)
    (hc : Inv P Q J c) (hR : Returns R c) (ha : guard c a)
    (h : D.machine.step c a = some c') : Returns R c' := by
  obtain ⟨γ, hJ, hF⟩ := hc
  -- every other call is as before
  have hold : ∀ i (cs : CallState κ E Ans α), c'.calls = Function.update c.calls i cs →
      (∀ k b, cs = .returned k b → R c'.shared i k b) → Returns R c' := by
    intro i cs hcalls hcs j k b hj
    rw [hcalls] at hj
    by_cases hji : j = i
    · subst hji
      rw [Function.update_self] at hj
      exact hcs k b hj
    · rw [Function.update_of_ne hji] at hj
      exact hkept j k b hj (hR j k b hj)
  -- a program that has ended returns what its last ghost state says
  have hsettle : ∀ i k g p, J c'.shared (Function.update γ i (some g)) → P.Obeys (Q k) g p →
      ∀ k' b, CallState.settle k p = .returned k' b → R c'.shared i k' b := by
    intro i k g p hJ' hp k' b hret'
    cases p with
    | ret b' =>
      obtain ⟨rfl, rfl⟩ := CallState.returned.inj hret'
      exact hret _ i k _ g b' hJ' (by simp) hp
    | op e f => cases hret'
  rcases act_cases h with ⟨i, k, s, rfl, hi, hs, rfl⟩ | ⟨i, x, k, e, f, s, r, rfl, hi, hs, rfl⟩ |
    ⟨i, k, p, s, rfl, hi, hs, rfl⟩ | ⟨x, s, rfl, hs, rfl⟩
  · have hγ : γ i = none := by have := hF i; rw [hi] at this; exact this
    exact hold i _ rfl (hsettle i k _ _ (S.start c i k s γ ha hJ hγ hs) (S.prog k))
  · obtain ⟨g, hγ, hp⟩ := by have := hF i; rw [hi] at this; exact this
    obtain ⟨g', hr, hJ'⟩ := S.handle c i x k e f s r γ g ha hJ hF hi hγ hp.1 hs
    exact hold i _ rfl (hsettle i k g' _ hJ' (hp.2 r g' hr))
  · exact hold i _ rfl fun k' b hb => by cases hb
  · intro i k b hi
    exact hkept i k b hi (hR i k b hi)

/-- The invariant, and what it says of returned calls, along a run whose steps meet the guard,
    from any configuration in which both hold. -/
theorem Keeps.returns_of_inv (S : Keeps D P Q g₀ J guard) {R : σ → ι → κ → α → Prop}
    (hret : ∀ s i k γ g a, J s γ → γ i = some g → Q k g a → R s i k a)
    (hkept : ∀ c a c', guard c a → D.machine.step c a = some c' →
      ∀ i k b, c.calls i = .returned k b → R c.shared i k b → R c'.shared i k b)
    {init c : Configuration ι σ κ E Ans α} {acts : List (Act ι κ χ)}
    (hinit : Inv P Q J init) (hreturned : Returns R init)
    (hmeets : D.machine.Meets guard init acts) (hrun : D.machine.run init acts = some c) :
    Inv P Q J c ∧ Returns R c := by
  have hstep : ∀ c a c', Inv P Q J c ∧ Returns R c → guard c a →
      D.machine.step c a = some c' → Inv P Q J c' ∧ Returns R c' := by
    intro c a c' hc ha hs
    exact ⟨S.inv_step c a c' hc.1 ha hs,
      S.returns_step hret (hkept c a c' ha hs) hc.1 hc.2 ha hs⟩
  exact (Machine.along_of_meets hstep ⟨hinit, hreturned⟩ hmeets).last hrun

/-- The same from a configuration in which no call has been started. -/
theorem Keeps.returns_of_meets (S : Keeps D P Q g₀ J guard) {R : σ → ι → κ → α → Prop}
    (hret : ∀ s i k γ g a, J s γ → γ i = some g → Q k g a → R s i k a)
    (hkept : ∀ c a c', guard c a → D.machine.step c a = some c' →
      ∀ i k b, c.calls i = .returned k b → R c.shared i k b → R c'.shared i k b)
    {init c : Configuration ι σ κ E Ans α} {acts : List (Act ι κ χ)}
    (hinit : J init.shared fun _ => none) (hidle : ∀ i, init.calls i = .idle)
    (hmeets : D.machine.Meets guard init acts) (hrun : D.machine.run init acts = some c) :
    Inv P Q J c ∧ Returns R c := by
  refine S.returns_of_inv hret hkept ⟨fun _ => none, hinit, fun i => ?_⟩ (fun i k b hi => ?_)
    hmeets hrun
  · rw [hidle i]; rfl
  · rw [hidle i] at hi
    cases hi

/-! ## Requests -/

/-- A call that has been started keeps its request. -/
theorem request_step {c c' : Configuration ι σ κ E Ans α} {a : Act ι κ χ}
    (h : D.machine.step c a = some c') {i : ι} {k : κ} (hi : (c.calls i).request = some k) :
    (c'.calls i).request = some k := by
  have hsettle : ∀ (k : κ) (p : Prog E Ans α), (CallState.settle k p).request = some k := by
    intro k p
    cases p <;> rfl
  have hupdate : ∀ j (cs : CallState κ E Ans α),
      (j = i → cs.request = some k) → (Function.update c.calls j cs i).request = some k := by
    intro j cs hcs
    by_cases hji : i = j
    · subst hji
      rw [Function.update_self]
      exact hcs rfl
    · rw [Function.update_of_ne hji]
      exact hi
  rcases act_cases h with ⟨j, k', s, -, hj, -, rfl⟩ | ⟨j, x, k', e, f, s, r, -, hj, -, rfl⟩ |
    ⟨j, k', p, s, -, hj, -, rfl⟩ | ⟨x, s, -, -, rfl⟩
  · refine hupdate j _ fun hji => ?_
    rw [← hji, hj] at hi
    cases hi
  · refine hupdate j _ fun hji => ?_
    rw [← hji, hj] at hi
    cases hi
    exact hsettle _ _
  · refine hupdate j _ fun hji => ?_
    rw [← hji, hj] at hi
    cases hi
    rfl
  · exact hi

/-- A call that has returned has returned. -/
theorem returned_step {c c' : Configuration ι σ κ E Ans α} {a : Act ι κ χ}
    (h : D.machine.step c a = some c') {i : ι} {k : κ} {b : α} (hi : c.calls i = .returned k b) :
    c'.calls i = .returned k b := by
  have hupdate : ∀ j (cs : CallState κ E Ans α), c.calls j ≠ .returned k b →
      Function.update c.calls j cs i = .returned k b := by
    intro j cs hj
    have hij : i ≠ j := by
      rintro rfl
      exact hj hi
    rw [Function.update_of_ne hij]
    exact hi
  rcases act_cases h with ⟨j, k', s, -, hj, -, rfl⟩ | ⟨j, x, k', e, f, s, r, -, hj, -, rfl⟩ |
    ⟨j, k', p, s, -, hj, -, rfl⟩ | ⟨x, s, -, -, rfl⟩
  · exact hupdate j _ (by rw [hj]; exact nofun)
  · exact hupdate j _ (by rw [hj]; exact nofun)
  · exact hupdate j _ (by rw [hj]; exact nofun)
  · exact hi

/-- The request of a call at the end of a run is the one it was started with. -/
theorem meets_start_of_request {acts : List (Act ι κ χ)} {c c' : Configuration ι σ κ E Ans α}
    (hrun : D.machine.run c acts = some c') {i : ι} {k : κ}
    (hi : (c'.calls i).request = some k) :
    D.machine.Meets (fun _ a => ∀ k', a = .start i k' → k' = k) c acts := by
  induction acts generalizing c with
  | nil => trivial
  | cons a acts ih =>
    obtain ⟨m, hstep, hrest⟩ := (Machine.run_cons _).mp hrun
    refine ⟨?_, fun m' hm' => ?_⟩
    · rintro k' rfl
      have hm : (m.calls i).request = some k' := by
        have hact : D.act c (.start i k') = some m := hstep
        rcases act_cases hact with ⟨j, k, s, heq, -, -, rfl⟩ | ⟨j, x, k, e, f, s, r, heq, -⟩ |
          ⟨j, k, p, s, heq, -⟩ | ⟨x, s, heq, -⟩
        · cases heq
          show (Function.update c.calls i _ i).request = some k'
          rw [Function.update_self]
          cases D.prog k' <;> rfl
        · cases heq
        · cases heq
        · cases heq
      have hend := Machine.run_keeps (I := fun c : Configuration ι σ κ E Ans α =>
        (c.calls i).request = some k') (fun c a c' hc hs => request_step hs hc) acts _ _ hm hrest
      exact Option.some.inj (hend.symm.trans hi)
    · cases hstep.symm.trans hm'
      exact ih hrest

end Pool

end SocialApi.Concurrent
