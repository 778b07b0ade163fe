import SocialApi.Concurrent.Pool

/-!
# Calls made from within other calls

A call of one pool may make a call of another: it does something of its own first, then what the
inner call does, and answers with something made of the inner call's result. What the two pools
share is a view of their states that the outer call's own operations leave alone.

* `Machine.Simulation.reachable`: if a run of `N` matches each step of `M`, every reachable state
  of `M` goes with a reachable state of `N`.
* `Prog.Until`: a program that does operations of a set until it goes on in a given way.
* `Embedding`: the calls of `D` make calls of `D'`. `Embedding.reachable`: every reachable
  configuration of `D` goes with a reachable configuration of `D'`, call by call.
-/

namespace SocialApi.Concurrent

/-! ## Simulations -/

namespace Machine

variable {σ σ' α α' : Type} {M : Machine σ α} {N : Machine σ' α'} {R : σ → σ' → Prop}

/-- Every step of `M` is matched by a run of `N`. -/
structure Simulation (M : Machine σ α) (N : Machine σ' α') (R : σ → σ' → Prop) : Prop where
  init : ∀ s, M.init s → ∃ s', N.init s' ∧ R s s'
  step : ∀ s s' a t, R s s' → M.step s a = some t → ∃ bs t', N.run s' bs = some t' ∧ R t t'

/-- So is every run. -/
theorem Simulation.run (h : Simulation M N R) {s t : σ} {s' : σ'} {as : List α} (hR : R s s')
    (hrun : M.run s as = some t) : ∃ bs t', N.run s' bs = some t' ∧ R t t' := by
  induction as generalizing s s' with
  | nil =>
    cases hrun
    exact ⟨[], s', rfl, hR⟩
  | cons a as ih =>
    obtain ⟨m, hstep, hrest⟩ := (run_cons M).mp hrun
    obtain ⟨bs, m', hbs, hm⟩ := h.step s s' a m hR hstep
    obtain ⟨cs, t', hcs, ht⟩ := ih hm hrest
    exact ⟨bs ++ cs, t', (run_append N).mpr ⟨m', hbs, hcs⟩, ht⟩

theorem Simulation.reachable (h : Simulation M N R) {t : σ} (ht : M.Reachable t) :
    ∃ t', N.Reachable t' ∧ R t t' := by
  obtain ⟨s, as, hs, hrun⟩ := ht
  obtain ⟨s', hs', hR⟩ := h.init s hs
  obtain ⟨bs, t', hbs, hR'⟩ := h.run hR hrun
  exact ⟨t', ⟨s', bs, hs', hbs⟩, hR'⟩

end Machine

/-! ## Programs that go on as another -/

namespace Prog

variable {E : Type} {Ans : E → Type} {α β : Type} {S : E → Prop} {T : α → Prop}
  {C : Prog E Ans α → Prop}

/-- The program does operations of `S` until it goes on as one of `C` or ends with a value
    of `T`. -/
def Until (S : E → Prop) (T : α → Prop) (C : Prog E Ans α → Prop) : Prog E Ans α → Prop
  | ret a => T a ∨ C (ret a)
  | op e k => (S e ∧ ∀ r, (k r).Until S T C) ∨ C (op e k)

theorem until_of_goes {p : Prog E Ans α} (h : C p) : p.Until S T C := by
  cases p with
  | ret a => exact Or.inr h
  | op e k => exact Or.inr h

/-- A program that only does operations of `S` and ends with a value of `T`. -/
theorem until_of_all {p : Prog E Ans α} (h : p.All S) (hT : p.Ends T) : p.Until S T C := by
  induction p with
  | ret a => exact Or.inl hT
  | op e k ih => exact Or.inl ⟨h.1, fun r => ih r (h.2 r) (hT r)⟩

theorem Until.bind {T : β → Prop} {C : Prog E Ans β → Prop} {p : Prog E Ans α}
    {f : α → Prog E Ans β} (h : p.All S) (hf : ∀ a, (f a).Until S T C) :
    (p.bind f).Until S T C := by
  induction p with
  | ret a => exact hf a
  | op e k ih => exact Or.inl ⟨h.1, fun r => ih r (h.2 r)⟩

/-- What is made of the value at the end. -/
theorem Until.map {T' : β → Prop} {C' : Prog E Ans β → Prop} {p : Prog E Ans α} {f : α → β}
    (h : p.Until S T C) (hT : ∀ a, T a → T' (f a))
    (hC : ∀ q, C q → C' (q.bind fun a => .ret (f a))) :
    (p.bind fun a => .ret (f a)).Until S T' C' := by
  induction p with
  | ret a => exact h.imp (hT a) (hC _)
  | op e k ih => exact h.imp (fun h => ⟨h.1, fun r => ih r (h.2 r)⟩) (hC _)

end Prog

/-! ## Runs of one label -/

namespace Pool

variable {ι σ κ E α χ : Type} {Ans : E → Type} [DecidableEq ι] {D : Pool ι σ κ E Ans α χ}
  {c : Configuration ι σ κ E Ans α} {i : ι} {k : κ} {s : σ}

theorem run_start (hi : c.calls i = .idle) (hs : D.start c.shared i k = some s) :
    D.machine.run c [.start i k] =
      some ⟨s, Function.update c.calls i (.settle k (D.prog k))⟩ := by
  simp [Machine.run, machine, act, hi, hs]

theorem run_step {e : E} {f : Ans e → Prog E Ans α} {x : χ} {r : Ans e}
    (hi : c.calls i = .running k (.op e f)) (hs : D.handle c.shared i e x = some (s, r)) :
    D.machine.run c [.step i x] = some ⟨s, Function.update c.calls i (.settle k (f r))⟩ := by
  simp [Machine.run, machine, act, hi, hs]

theorem run_drop {p : Prog E Ans α} (hi : c.calls i = .running k p)
    (hs : D.drop c.shared i = some s) :
    D.machine.run c [.drop i] = some ⟨s, Function.update c.calls i (.dropped k)⟩ := by
  simp [Machine.run, machine, act, hi, hs]

theorem run_env {x : χ} (hs : D.env c.shared x = some s) :
    D.machine.run c [.env x] = some ⟨s, c.calls⟩ := by
  simp [Machine.run, machine, act, hs]

end Pool

/-! ## Pools within pools -/

section Embedding

variable {ι σ σ' κ κ' E E' α α' χ χ' : Type} {Ans : E → Type} {Ans' : E' → Type}

/-- The calls of `D` make calls of `D'`. -/
structure Embedding (D : Pool ι σ κ E Ans α χ) (D' : Pool ι σ' κ' E' Ans' α' χ') where
  /-- How an operation of an inner call looks from outside, and its answer from inside. -/
  inj : E' → E
  back : ∀ e, Ans (inj e) → Ans' e
  /-- The two pools see the same. -/
  agree : σ → σ' → Prop
  /-- The operations of a call before its inner call. -/
  apart : E → Prop
  /-- The operations of the inner calls. -/
  inside : E' → Prop
  /-- What a call may answer without an inner call. -/
  alone : κ → α → Prop
  /-- What a call with request `k` answers if its inner call has returned. -/
  answer : κ → κ' → α' → α → Prop
  /-- Some inner call does something. -/
  idler : ∃ k e f, D'.prog k = .op e f
  prog : ∀ k, (D.prog k).Until apart (alone k) fun p =>
    ∃ (k' : κ') (f : α' → α), p = ((D'.prog k').lift inj back).bind (fun b => .ret (f b)) ∧
      ∀ b, answer k k' b (f b)
  prog_inside : ∀ k, (D'.prog k).All inside
  init : ∀ s, D.init s → ∃ s', D'.init s' ∧ agree s s'
  start : ∀ s s' i k t, agree s s' → D.start s i k = some t → agree t s'
  enter : ∀ s s' i k, agree s s' → ∃ t', D'.start s' i k = some t' ∧ agree s t'
  handle_apart : ∀ s s' i e x t r, agree s s' → apart e → D.handle s i e x = some (t, r) →
    agree t s'
  handle_inside : ∀ s s' i e x t r, agree s s' → inside e → D.handle s i (inj e) x = some (t, r) →
    ∃ x' t', D'.handle s' i e x' = some (t', back e r) ∧ agree t t'
  drop : ∀ s s' i t, agree s s' → D.drop s i = some t → ∃ t', D'.drop s' i = some t' ∧ agree t t'
  env : ∀ s s' x t, agree s s' → D.env s x = some t →
    agree t s' ∨ ∃ x' t', D'.env s' x' = some t' ∧ agree t t'

namespace Embedding

variable {D : Pool ι σ κ E Ans α χ} {D' : Pool ι σ' κ' E' Ans' α' χ'}

/-- What a call does from its inner call on, with `f` to make its answer. -/
def after (M : Embedding D D') (f : α' → α) (q : Prog E' Ans' α') : Prog E Ans α :=
  (q.lift M.inj M.back).bind fun b => .ret (f b)

/-- The program of a request makes its inner call in some way. -/
def Enters (M : Embedding D D') (k : κ) (p : Prog E Ans α) : Prop :=
  ∃ k' f, p = M.after f (D'.prog k') ∧ ∀ b, M.answer k k' b (f b)

/-- How a call goes with its inner call. A call that is dropped before it has made its inner call
    goes with one that was dropped before it did anything. -/
inductive Tracks (M : Embedding D D') : CallState κ E Ans α → CallState κ' E' Ans' α' → Prop
  | idle : Tracks M .idle .idle
  | before (k : κ) (e : E) (f : Ans e → Prog E Ans α) (he : M.apart e)
      (hf : ∀ r, (f r).Until M.apart (M.alone k) (M.Enters k)) : Tracks M (.running k (.op e f)) .idle
  | within (k : κ) (k' : κ') (e : E') (q : Ans' e → Prog E' Ans' α') (f : α' → α)
      (hq : (Prog.op e q).All M.inside) (hf : ∀ b, M.answer k k' b (f b)) :
      Tracks M (.running k (M.after f (.op e q))) (.running k' (.op e q))
  | answered (k : κ) (k' : κ') (b : α') (a : α) (ha : M.answer k k' b a) :
      Tracks M (.returned k a) (.returned k' b)
  | alone (k : κ) (a : α) (ha : M.alone k a) : Tracks M (.returned k a) .idle
  | dropped (k : κ) (k' : κ') : Tracks M (.dropped k) (.dropped k')

/-- Two configurations that go together. -/
structure Related (M : Embedding D D') (c : Configuration ι σ κ E Ans α)
    (c' : Configuration ι σ' κ' E' Ans' α') : Prop where
  agree : M.agree c.shared c'.shared
  calls : ∀ i, M.Tracks (c.calls i) (c'.calls i)

variable {M : Embedding D D'} {s : σ} {s' : σ'} {calls : ι → CallState κ E Ans α}
  {calls' : ι → CallState κ' E' Ans' α'} {i : ι} {k : κ} {k' : κ'}

/-- Replacing a call and its inner call. -/
theorem tracks_update [DecidableEq ι] (h : ∀ j, M.Tracks (calls j) (calls' j))
    {cs : CallState κ E Ans α}
    {cs' : CallState κ' E' Ans' α'} (hi : M.Tracks cs cs') (j : ι) :
    M.Tracks (Function.update calls i cs j) (Function.update calls' i cs' j) := by
  by_cases hj : j = i
  · subst hj
    simpa using hi
  · simpa [Function.update_of_ne hj] using h j

/-- Replacing a call whose inner call stays as it is. -/
theorem tracks_update_left [DecidableEq ι] (h : ∀ j, M.Tracks (calls j) (calls' j))
    {cs : CallState κ E Ans α}
    (hi : M.Tracks cs (calls' i)) (j : ι) : M.Tracks (Function.update calls i cs j) (calls' j) := by
  have hj := tracks_update (i := i) h hi j
  rwa [Function.update_eq_self] at hj

/-- A call that goes on within its inner call. -/
theorem tracks_within {f : α' → α} {q : Prog E' Ans' α'} (hq : q.All M.inside)
    (hf : ∀ b, M.answer k k' b (f b)) :
    M.Tracks (.settle k (M.after f q)) (.settle k' q) := by
  cases q with
  | ret b => exact .answered k k' b (f b) (hf b)
  | op e q => exact .within k k' e q f hq hf

variable [DecidableEq ι]

/-- A call that goes on with a program that may make an inner call. -/
theorem related_settle {p : Prog E Ans α} (hagree : M.agree s s')
    (h : ∀ j, M.Tracks (calls j) (calls' j)) (hi : calls' i = .idle)
    (hp : p.Until M.apart (M.alone k) (M.Enters k)) :
    ∃ bs c', D'.machine.run ⟨s', calls'⟩ bs = some c' ∧
      M.Related ⟨s, Function.update calls i (.settle k p)⟩ c' := by
  -- the inner call begins at once
  have hent : M.Enters k p → ∃ bs c', D'.machine.run ⟨s', calls'⟩ bs = some c' ∧
      M.Related ⟨s, Function.update calls i (.settle k p)⟩ c' := by
    rintro ⟨k', f, rfl, hf⟩
    obtain ⟨t', ht, hagree'⟩ := M.enter s s' i k' hagree
    exact ⟨_, _, Pool.run_start hi ht, hagree',
      tracks_update h (tracks_within (M.prog_inside k') hf)⟩
  have hstay : M.Tracks (.settle k p) .idle → ∃ bs c', D'.machine.run ⟨s', calls'⟩ bs = some c' ∧
      M.Related ⟨s, Function.update calls i (.settle k p)⟩ c' := by
    intro htracks
    refine ⟨[], _, rfl, hagree, tracks_update_left h ?_⟩
    rw [hi]
    exact htracks
  cases p with
  | ret a =>
    rcases hp with ha | hp
    · exact hstay (.alone k a ha)
    · exact hent hp
  | op e f =>
    rcases hp with ⟨he, hf⟩ | hp
    · exact hstay (.before k e f he hf)
    · exact hent hp

/-- A call that is dropped. -/
theorem related_drop (M : Embedding D D') {t : σ} {p : Prog E Ans α} (hagree : M.agree s s')
    (h : ∀ j, M.Tracks (calls j) (calls' j)) (hi : M.Tracks (.running k p) (calls' i))
    (hdrop : D.drop s i = some t) :
    ∃ bs c', D'.machine.run ⟨s', calls'⟩ bs = some c' ∧
      M.Related ⟨t, Function.update calls i (.dropped k)⟩ c' := by
  generalize hinner : calls' i = inner at hi
  cases hi with
  | before _ _ _ he hf =>
    -- inside, a call begins and is dropped before it does anything
    obtain ⟨k', e, f, hk'⟩ := M.idler
    obtain ⟨m', hm, hagree'⟩ := M.enter s s' i k' hagree
    obtain ⟨t', ht, hagree''⟩ := M.drop s m' i t hagree' hdrop
    have hstart := Pool.run_start (D := D') (c := ⟨s', calls'⟩) hinner hm
    rw [hk'] at hstart
    have hrunning : Function.update calls' i (.running k' (.op e f)) i = .running k' (.op e f) :=
      Function.update_self _ _ _
    refine ⟨_, _, (Machine.run_append _).mpr ⟨_, hstart, Pool.run_drop hrunning ht⟩, hagree'',
      fun j => ?_⟩
    show M.Tracks _ (Function.update (Function.update calls' i _) i _ j)
    rw [Function.update_idem]
    exact tracks_update h (.dropped k k') j
  | within _ k' e q f hq hf =>
    obtain ⟨t', ht, hagree'⟩ := M.drop s s' i t hagree hdrop
    exact ⟨_, _, Pool.run_drop hinner ht, hagree', tracks_update h (.dropped k k')⟩

/-- A call that performs an operation. -/
theorem related_step (M : Embedding D D') {t : σ} {e : E} {f : Ans e → Prog E Ans α} {x : χ}
    {r : Ans e} (hagree : M.agree s s') (h : ∀ j, M.Tracks (calls j) (calls' j))
    (hi : M.Tracks (.running k (.op e f)) (calls' i)) (hs : D.handle s i e x = some (t, r)) :
    ∃ bs c', D'.machine.run ⟨s', calls'⟩ bs = some c' ∧
      M.Related ⟨t, Function.update calls i (.settle k (f r))⟩ c' := by
  generalize hinner : calls' i = inner at hi
  cases hi with
  | before _ _ _ he hf =>
    exact related_settle (M.handle_apart s s' i e x t r hagree he hs) h hinner (hf r)
  | within _ k' e q g hq hg =>
    obtain ⟨x', t', hs', hagree'⟩ := M.handle_inside s s' i e x t r hagree hq.1 hs
    exact ⟨_, _, Pool.run_step hinner hs', hagree',
      tracks_update h (tracks_within (hq.2 _) hg)⟩

/-- The inner pool matches every step of the outer one. -/
theorem simulation (M : Embedding D D') :
    Machine.Simulation D.machine D'.machine M.Related where
  init c hc := by
    obtain ⟨s', hs', hagree⟩ := M.init c.shared hc.1
    refine ⟨⟨s', fun _ => .idle⟩, ⟨hs', fun _ => rfl⟩, hagree, fun i => ?_⟩
    rw [hc.2 i]
    exact .idle
  step c c' a d hrel hstep := by
    obtain ⟨hagree, hcalls⟩ := hrel
    rcases Pool.act_cases hstep with ⟨i, k, t, rfl, hi, hs, rfl⟩ |
      ⟨i, x, k, e, f, t, r, rfl, hi, hs, rfl⟩ | ⟨i, k, p, t, rfl, hi, hs, rfl⟩ | ⟨x, t, rfl, hs, rfl⟩
    · refine related_settle (M.start _ _ i k t hagree hs) hcalls ?_ (M.prog k)
      have htracks := hcalls i
      rw [hi] at htracks
      generalize c'.calls i = inner at htracks
      cases htracks
      rfl
    · exact related_step M hagree hcalls (hi ▸ hcalls i) hs
    · exact related_drop M hagree hcalls (hi ▸ hcalls i) hs
    · rcases M.env _ _ x t hagree hs with hagree' | ⟨x', t', hs', hagree'⟩
      · exact ⟨[], c', rfl, hagree', hcalls⟩
      · exact ⟨_, _, Pool.run_env hs', hagree', hcalls⟩

/-- Every reachable configuration goes with a reachable configuration of the inner pool. -/
theorem reachable (M : Embedding D D') {c : Configuration ι σ κ E Ans α}
    (h : D.machine.Reachable c) : ∃ c', D'.machine.Reachable c' ∧ M.Related c c' :=
  M.simulation.reachable h

end Embedding

end Embedding

end SocialApi.Concurrent
