import SocialApi.Concurrent.Pool

/-!
# Pools with a record of what was done

`Pool.recorded` adds to a pool's shared state the list of all operations performed so
far, each with its call, its answer and the state before and after it. No outcome depends on the
record.

* `Pool.forget_step`: the steps of the recorded pool are those of the pool, with the record
  forgotten.
* `Pool.not_idle_of_performed`: only calls that have been started are in the record.
* `Pool.Throughout`: what holds of every operation and of what was done before it.
-/

namespace SocialApi.Concurrent

/-- An operation that has been performed, with its answer. -/
structure Performed (ι σ E : Type) (Ans : E → Type) where
  call : ι
  op : E
  answer : Ans op
  before : σ
  after : σ

namespace Pool

variable {ι σ κ E : Type} {Ans : E → Type} {α χ : Type}

/-- The pool with a record of the operations performed. -/
def recorded (D : Pool ι σ κ E Ans α χ) :
    Pool ι (σ × List (Performed ι σ E Ans)) κ E Ans α χ where
  init s := D.init s.1 ∧ s.2 = []
  prog := D.prog
  start s i k := (D.start s.1 i k).map fun s' => (s', s.2)
  handle s i e x := (D.handle s.1 i e x).map fun r => ((r.1, s.2 ++ [⟨i, e, r.2, s.1, r.1⟩]), r.2)
  drop s i := (D.drop s.1 i).map fun s' => (s', s.2)
  env s x := (D.env s.1 x).map fun s' => (s', s.2)

/-- The configuration without the record. -/
def forget (c : Configuration ι (σ × List (Performed ι σ E Ans)) κ E Ans α) :
    Configuration ι σ κ E Ans α :=
  ⟨c.shared.1, c.calls⟩

variable {D : Pool ι σ κ E Ans α χ}

/-- What an operation adds to the record. -/
theorem recorded_handle {s s' : σ × List (Performed ι σ E Ans)} {i : ι} {e : E} {x : χ} {r : Ans e}
    (h : D.recorded.handle s i e x = some (s', r)) :
    ∃ t, D.handle s.1 i e x = some (t, r) ∧ s' = (t, s.2 ++ [⟨i, e, r, s.1, t⟩]) := by
  obtain ⟨⟨t, r'⟩, ht, heq⟩ := Option.map_eq_some_iff.mp h
  cases heq
  exact ⟨t, ht, rfl⟩

/-- A step of the recorded pool is a step of the pool. -/
theorem map_forget_act [DecidableEq ι]
    (c : Configuration ι (σ × List (Performed ι σ E Ans)) κ E Ans α)
    (a : Act ι κ χ) : (D.recorded.act c a).map forget = D.act (forget c) a := by
  cases a with
  | start i k =>
    simp only [act, forget]
    split
    · simp only [recorded, Option.map_map]
      rfl
    · rfl
  | step i x =>
    simp only [act, forget]
    split
    · simp only [recorded, Option.map_map]
      rfl
    · rfl
  | drop i =>
    simp only [act, forget]
    split
    · simp only [recorded, Option.map_map]
      rfl
    · rfl
  | env x =>
    simp only [act, forget, recorded, Option.map_map]
    rfl

/-- A step adds to the record at most one operation, of a call in progress. -/
theorem record_step [DecidableEq ι]
    {c c' : Configuration ι (σ × List (Performed ι σ E Ans)) κ E Ans α}
    {a : Act ι κ χ} (h : D.recorded.machine.step c a = some c') :
    c'.shared.2 = c.shared.2 ∨
      ∃ p, c'.shared.2 = c.shared.2 ++ [p] ∧ (c.calls p.call).Active := by
  rcases act_cases h with ⟨i, k, s, -, -, hs, rfl⟩ | ⟨i, x, k, e, f, s, r, -, hi, hs, rfl⟩ |
    ⟨i, k, q, s, -, -, hs, rfl⟩ | ⟨x, s, -, hs, rfl⟩
  · obtain ⟨s', -, rfl⟩ := Option.map_eq_some_iff.mp hs
    exact Or.inl rfl
  · obtain ⟨t, -, rfl⟩ := recorded_handle hs
    refine Or.inr ⟨_, rfl, ?_⟩
    show (c.calls i).Active
    rw [hi]
    trivial
  · obtain ⟨s', -, rfl⟩ := Option.map_eq_some_iff.mp hs
    exact Or.inl rfl
  · obtain ⟨s', -, rfl⟩ := Option.map_eq_some_iff.mp hs
    exact Or.inl rfl

/-- Forgetting the record leaves a step of the pool. -/
theorem forget_step [DecidableEq ι]
    {c c' : Configuration ι (σ × List (Performed ι σ E Ans)) κ E Ans α}
    {a : Act ι κ χ} (h : D.recorded.machine.step c a = some c') :
    D.machine.step (forget c) a = some (forget c') := by
  have hstep : (D.recorded.act c a).map forget = some (forget c') := by
    rw [show D.recorded.act c a = some c' from h, Option.map_some]
  rwa [map_forget_act] at hstep

/-- Only calls that have been started have performed anything. -/
def Started (c : Configuration ι (σ × List (Performed ι σ E Ans)) κ E Ans α) : Prop :=
  ∀ p ∈ c.shared.2, c.calls p.call ≠ .idle

theorem started_step [DecidableEq ι]
    {c c' : Configuration ι (σ × List (Performed ι σ E Ans)) κ E Ans α}
    {a : Act ι κ χ} (hc : Started c) (h : D.recorded.machine.step c a = some c') : Started c' := by
  have hsettle : ∀ (k : κ) (p : Prog E Ans α), CallState.settle k p ≠ .idle := by
    intro k p
    cases p <;> exact nofun
  have hupdate : ∀ (calls : ι → CallState κ E Ans α) i (cs : CallState κ E Ans α) j, cs ≠ .idle →
      (j ≠ i → calls j ≠ .idle) → Function.update calls i cs j ≠ .idle := by
    intro calls i cs j hcs hj
    by_cases hji : j = i
    · subst hji
      rw [Function.update_self]
      exact hcs
    · rw [Function.update_of_ne hji]
      exact hj hji
  intro p hp
  rcases act_cases h with ⟨i, k, s, -, -, hs, rfl⟩ | ⟨i, x, k, e, f, s, r, -, -, hs, rfl⟩ |
    ⟨i, k, q, s, -, -, hs, rfl⟩ | ⟨x, s, -, hs, rfl⟩
  · obtain ⟨s', -, rfl⟩ := Option.map_eq_some_iff.mp hs
    exact hupdate _ _ _ _ (hsettle _ _) fun _ => hc p hp
  · obtain ⟨⟨s', r'⟩, -, heq⟩ := Option.map_eq_some_iff.mp hs
    cases heq
    refine hupdate _ _ _ _ (hsettle _ _) fun hne => ?_
    rcases List.mem_append.mp hp with hp | hp
    · exact hc p hp
    · rw [List.mem_singleton.mp hp] at hne
      exact absurd rfl hne
  · obtain ⟨s', -, rfl⟩ := Option.map_eq_some_iff.mp hs
    exact hupdate _ _ _ _ nofun fun _ => hc p hp
  · obtain ⟨s', -, rfl⟩ := Option.map_eq_some_iff.mp hs
    exact hc p hp

theorem not_idle_of_performed [DecidableEq ι]
    {c : Configuration ι (σ × List (Performed ι σ E Ans)) κ E Ans α}
    (h : D.recorded.machine.Reachable c) : ∀ p ∈ c.shared.2, c.calls p.call ≠ .idle := by
  refine h.invariant (I := Started) (fun c hc p hp => ?_) fun c a c' hc hstep => started_step hc hstep
  rw [hc.1.2] at hp
  exact absurd hp List.not_mem_nil

/-- A call that starts has performed nothing. -/
theorem unperformed_of_start [DecidableEq ι]
    {c c' : Configuration ι (σ × List (Performed ι σ E Ans)) κ E Ans α}
    (hc : Started c) {i : ι} {k : κ} (h : D.recorded.machine.step c (.start i k) = some c') :
    ∀ p ∈ c.shared.2, p.call ≠ i := by
  rintro p hp rfl
  have hact : D.recorded.act c (.start p.call k) = some c' := h
  rcases act_cases hact with ⟨j, k', s, heq, hj, -⟩ | ⟨j, x, k', e, f, s, r, heq, -⟩ |
    ⟨j, k', q, s, heq, -⟩ | ⟨x, s, heq, -⟩
  · cases heq
    exact hc p hp hj
  · cases heq
  · cases heq
  · cases heq

/-! ## Along the record -/

/-- Every operation in the record has `P`, together with what was done before it. -/
def Throughout (P : List (Performed ι σ E Ans) → Performed ι σ E Ans → Prop)
    (record : List (Performed ι σ E Ans)) : Prop :=
  ∀ before p after, record = before ++ p :: after → P before p

section Throughout

variable {P P' : List (Performed ι σ E Ans) → Performed ι σ E Ans → Prop}
  {record : List (Performed ι σ E Ans)} {p : Performed ι σ E Ans}

theorem throughout_nil : Throughout P [] := by
  intro before p after h
  simp at h

theorem Throughout.mono (h : Throughout P record) (hP : ∀ before p, P before p → P' before p) :
    Throughout P' record :=
  fun before p after heq => hP before p (h before p after heq)

/-- One more operation. -/
theorem Throughout.append (h : Throughout P record) (hp : P record p) :
    Throughout P (record ++ [p]) := by
  intro before q after heq
  rcases List.eq_nil_or_concat after with rfl | ⟨after, z, rfl⟩
  · obtain ⟨rfl, hpq⟩ := List.append_inj' heq rfl
    obtain rfl : p = q := by simpa using hpq
    exact hp
  · refine h before q after ?_
    have heq : record ++ [p] = (before ++ q :: after) ++ [z] := by simpa using heq
    exact (List.append_inj' heq rfl).1

end Throughout

end Pool

end SocialApi.Concurrent
