import SocialApi.Concurrent.Pool

/-!
# Calls one after another

A run in which a call starts, and the environment acts, only while no call is in progress, and no
call is dropped (`OneByOne`). One call is then a program that has the shared state for itself:
what it does is said by the protocol whose ghost state is the shared state (`solo`), so that
`Obeys` is the weakest precondition of a sequential program.

* `Protocol.Obeys.simulate`: what a program obeys in one protocol it obeys in every protocol that
  the first one simulates.
* `Protocol.obeys_of_exec`: operations with one outcome, from their execution.
* `Pool.Serves.step`, `Pool.Serves.answers`: what every call keeps when it runs on its own holds
  between the calls, and every answer has what is said of it at the time it is given.
-/

namespace SocialApi.Concurrent

namespace Protocol

variable {E : Type} {Ans : E → Type} {G G' α β : Type}

/-- A program that obeys `P` obeys every protocol whose answers, on the operations of the
    program, are answers of `P` for a ghost state that stays related. -/
theorem Obeys.simulate {P : Protocol E Ans G} {P' : Protocol E Ans G'} {S : E → Prop}
    {R : G' → G → Prop} {Q : G → α → Prop}
    (hask : ∀ g' g e, R g' g → S e → P.asks g e → P'.asks g' e)
    (hanswer : ∀ g' g e r g₁', R g' g → S e → P.asks g e → P'.answers g' e r g₁' →
      ∃ g₁, P.answers g e r g₁ ∧ R g₁' g₁) {p : Prog E Ans α} (hp : p.All S) {g : G} {g' : G'}
    (hR : R g' g) (h : P.Obeys Q g p) : P'.Obeys (fun g₁' a => ∃ g₁, Q g₁ a ∧ R g₁' g₁) g' p := by
  induction p generalizing g g' with
  | ret a => exact ⟨g, h, hR⟩
  | op e k ih =>
    refine ⟨hask g' g e hR hp.1 h.1, fun r g₁' hr => ?_⟩
    obtain ⟨g₁, hr₁, hR₁⟩ := hanswer g' g e r g₁' hR hp.1 h.1 hr
    exact ih r (hp.2 r) hR₁ (h.2 r g₁ hr₁)

/-- Two things a program obeys. -/
theorem Obeys.and {P : Protocol E Ans G} {Q Q' : G → α → Prop} {p : Prog E Ans α} {g : G}
    (h : P.Obeys Q g p) (h' : P.Obeys Q' g p) : P.Obeys (fun g a => Q g a ∧ Q' g a) g p := by
  induction p generalizing g with
  | ret a => exact ⟨h, h'⟩
  | op e k ih => exact ⟨h.1, fun r g' hr => ih r (h.2 r g' hr) (h'.2 r g' hr)⟩

/-- A program whose operations have no outcome but the one of `f` ends where its execution
    does. -/
theorem obeys_of_exec {P : Protocol E Ans G} {f : G → (e : E) → Option (G × Ans e)} {S : E → Prop}
    (hS : ∀ g e, S e → P.asks g e ∧ ∀ r g', P.answers g e r g' → f g e = some (g', r))
    {Q : G → α → Prop} {p : Prog E Ans α} (hp : p.All S) {g g' : G} {a : α}
    (hexec : p.exec f g = some (g', a)) (hQ : Q g' a) : P.Obeys Q g p := by
  induction p generalizing g with
  | ret b =>
    cases hexec
    exact hQ
  | op e k ih =>
    refine ⟨(hS g e hp.1).1, fun r g₁ hr => ih r (hp.2 r) ?_⟩
    rw [Prog.exec, (hS g e hp.1).2 r g₁ hr, Option.bind_some] at hexec
    exact hexec

end Protocol

/-- The operations of a call that has the shared state for itself; `ok` are the outcomes of the
    run. -/
def solo {σ E : Type} {Ans : E → Type} {χ : Type} (handle : σ → (e : E) → χ → Option (σ × Ans e))
    (ok : χ → Prop) : Protocol E Ans σ where
  asks _ _ := True
  answers s e r s' := ∃ x, ok x ∧ handle s e x = some (s', r)

/-- One operation of such a call. -/
theorem solo_op {σ E : Type} {Ans : E → Type} {χ α : Type}
    {handle : σ → (e : E) → χ → Option (σ × Ans e)} {ok : χ → Prop} {Q : σ → α → Prop} {s : σ}
    {e : E} {k : Ans e → Prog E Ans α}
    (h : ∀ x s' r, ok x → handle s e x = some (s', r) → (solo handle ok).Obeys Q s' (k r)) :
    (solo handle ok).Obeys Q s (.op e k) := by
  refine ⟨trivial, ?_⟩
  rintro r s' ⟨x, hx, hs⟩
  exact h x s' r hx hs

namespace Pool

variable {ι σ κ E : Type} {Ans : E → Type} {α χ : Type}

/-- The label does not start a call, and nothing happens to the shared state from outside, while a
    call is in progress; no call is dropped; the outcomes are `ok`, the requests `good`. -/
def OneByOne (ok : χ → Prop) (good : κ → Prop) (c : Configuration ι σ κ E Ans α) :
    Act ι κ χ → Prop
  | .start _ k => good k ∧ ∀ i, ¬ (c.calls i).Active
  | .step _ x => ok x
  | .drop _ => False
  | .env _ => ∀ i, ¬ (c.calls i).Active

instance [Fintype ι] {ok : χ → Prop} {good : κ → Prop} [DecidablePred ok] [DecidablePred good]
    (c : Configuration ι σ κ E Ans α) : DecidablePred (OneByOne ok good c)
  | .start _ k => inferInstanceAs (Decidable (good k ∧ ∀ i, ¬ (c.calls i).Active))
  | .step _ x => inferInstanceAs (Decidable (ok x))
  | .drop _ => isFalse id
  | .env _ => inferInstanceAs (Decidable (∀ i, ¬ (c.calls i).Active))

/-- Every good call, run on its own from a state with `I`, ends in one with `I` and answers with
    `Post`; and so the environment keeps `I`. -/
structure Serves (D : Pool ι σ κ E Ans α χ) (ok : χ → Prop) (good : κ → Prop) (I : σ → Prop)
    (Post : κ → σ → α → Prop) : Prop where
  prog : ∀ s i k s', good k → I s → D.start s i k = some s' →
    (solo (fun s => D.handle s i) ok).Obeys (fun s a => I s ∧ Post k s a) s' (D.prog k)
  env : ∀ s x s', I s → D.env s x = some s' → I s'

/-- Between two calls the shared state has `I`; the call in progress goes on to keep it. -/
def Between (D : Pool ι σ κ E Ans α χ) (ok : χ → Prop) (I : σ → Prop) (Post : κ → σ → α → Prop)
    (c : Configuration ι σ κ E Ans α) : Prop :=
  ((∀ i, ¬ (c.calls i).Active) ∧ I c.shared) ∨
    ∃ i k p, c.calls i = .running k p ∧ (∀ j, j ≠ i → ¬ (c.calls j).Active) ∧
      (solo (fun s => D.handle s i) ok).Obeys (fun s a => I s ∧ Post k s a) c.shared p

/-- A call returns in the step from `c` to `c'`. -/
def Answers (c c' : Configuration ι σ κ E Ans α) (i : ι) (k : κ) (a : α) : Prop :=
  ¬ (c.calls i).result.isSome ∧ c'.calls i = .returned k a

variable {D : Pool ι σ κ E Ans α χ} {ok : χ → Prop} {good : κ → Prop} {I : σ → Prop}
  {Post : κ → σ → α → Prop} {c c' : Configuration ι σ κ E Ans α} {a : Act ι κ χ}

/-- The call that returns with the last label of a run. -/
theorem answers_of_result [DecidableEq ι] {init : Configuration ι σ κ E Ans α}
    {before : List (Act ι κ χ)} {i : ι}
    {k : κ} {b : α} (hrun : D.machine.run init (before ++ [a]) = some c')
    (hopen : (D.machine.run init before).map (fun c => (c.calls i).result.isSome) = some false)
    (hresult : (c'.calls i).result = some (k, b)) :
    ∃ c, D.machine.run init before = some c ∧ D.machine.step c a = some c' ∧ Answers c c' i k b := by
  obtain ⟨c, hrun₁, hstep⟩ := (Machine.run_snoc _).mp hrun
  rw [hrun₁] at hopen
  have hopen : (c.calls i).result.isSome = false := Option.some.inj hopen
  exact ⟨c, hrun₁, hstep, by simp [hopen], CallState.returned_of_result hresult⟩

/-- Calls that are good for one thing are good for what follows from it. -/
theorem OneByOne.mono {good' : κ → Prop} (hgood : ∀ k, good k → good' k)
    (h : OneByOne ok good c a) : OneByOne ok good' c a := by
  cases a with
  | start i k => exact ⟨hgood k h.1, h.2⟩
  | _ => exact h

variable [DecidableEq ι]

/-- The only call in progress goes on with `p`, or ends with it. -/
theorem Between.settle {i : ι} {k : κ} {p : Prog E Ans α} {s : σ}
    (hothers : ∀ j, j ≠ i → ¬ (c.calls j).Active)
    (hp : (solo (fun s => D.handle s i) ok).Obeys (fun s a => I s ∧ Post k s a) s p) :
    Between D ok I Post ⟨s, Function.update c.calls i (.settle k p)⟩ ∧
      ∀ j k' b, Answers c ⟨s, Function.update c.calls i (.settle k p)⟩ j k' b → Post k' s b := by
  have hstill : ∀ j, j ≠ i → ¬ (Function.update c.calls i (CallState.settle k p) j).Active := by
    intro j hj
    rw [Function.update_of_ne hj]
    exact hothers j hj
  have hself : ∀ j k' b, Answers c ⟨s, Function.update c.calls i (.settle k p)⟩ j k' b →
      CallState.settle k p = .returned k' b := by
    rintro j k' b ⟨hbefore, hafter⟩
    have hafter : Function.update c.calls i (CallState.settle k p) j = .returned k' b := hafter
    by_cases hj : j = i
    · subst hj
      rwa [Function.update_self] at hafter
    · rw [Function.update_of_ne hj] at hafter
      rw [hafter] at hbefore
      exact absurd rfl hbefore
  cases p with
  | ret b =>
    refine ⟨Or.inl ⟨fun j => ?_, hp.1⟩, fun j k' b' h => ?_⟩
    · by_cases hj : j = i
      · subst hj
        show ¬ (Function.update c.calls j (CallState.settle k (.ret b)) j).Active
        rw [Function.update_self]
        exact id
      · exact hstill j hj
    · have hb := hself j k' b' h
      cases hb
      exact hp.2
  | op e f =>
    refine ⟨Or.inr ⟨i, k, .op e f, Function.update_self _ _ _, hstill, hp⟩, fun j k' b' h => ?_⟩
    cases hself j k' b' h

/-- One step of a run of calls one after another. -/
theorem Serves.step (S : Serves D ok good I Post) (hc : Between D ok I Post c)
    (ha : OneByOne ok good c a) (h : D.machine.step c a = some c') :
    Between D ok I Post c' ∧ ∀ i k b, Answers c c' i k b → Post k c'.shared b := by
  rcases act_cases h with ⟨i, k, s, rfl, hi, hs, rfl⟩ | ⟨i, x, k, e, f, s, r, rfl, hi, hs, rfl⟩ |
    ⟨i, k, p, s, rfl, -⟩ | ⟨x, s, rfl, hs, rfl⟩
  · obtain ⟨hgood, hquiet⟩ := ha
    have hI : I c.shared := by
      rcases hc with ⟨-, hI⟩ | ⟨j, k', p, hj, -⟩
      · exact hI
      · exact absurd (show (c.calls j).Active by rw [hj]; trivial) (hquiet j)
    exact Between.settle (fun j _ => hquiet j) (S.prog c.shared i k s hgood hI hs)
  · rcases hc with ⟨hquiet, -⟩ | ⟨j, k', p, hj, hothers, hp⟩
    · exact absurd (show (c.calls i).Active by rw [hi]; trivial) (hquiet i)
    · obtain rfl : i = j := by
        by_contra hne
        exact hothers i hne (by rw [hi]; trivial)
      rw [hi] at hj
      cases hj
      exact Between.settle hothers (hp.2 r s ⟨x, ha, hs⟩)
  · exact ha.elim
  · have hI : I c.shared := by
      rcases hc with ⟨-, hI⟩ | ⟨j, k', p, hj, -⟩
      · exact hI
      · exact absurd (show (c.calls j).Active by rw [hj]; trivial) (ha j)
    refine ⟨Or.inl ⟨ha, S.env c.shared x s hI hs⟩, ?_⟩
    rintro i k b ⟨hbefore, hafter⟩
    have hafter : c.calls i = .returned k b := hafter
    rw [hafter] at hbefore
    exact absurd rfl hbefore

/-- One step somewhere in a run of calls one after another. -/
theorem Serves.run (S : Serves D ok good I Post) {init : Configuration ι σ κ E Ans α}
    (hinit : Between D ok I Post init) {acts before after : List (Act ι κ χ)}
    (hmeets : D.machine.Meets (OneByOne ok good) init acts) (hsplit : acts = before ++ a :: after)
    (hrun : D.machine.run init before = some c) (hstep : D.machine.step c a = some c') :
    Between D ok I Post c' ∧ ∀ i k b, Answers c c' i k b → Post k c'.shared b := by
  have hbetween := Machine.along_of_meets (I := Between D ok I Post)
    (fun c a c' hc ha h => (S.step hc ha h).1) hinit hmeets
  have hc := Machine.along_iff.mp hbetween before (a :: after) c hsplit hrun
  have ha : OneByOne ok good c a := (hsplit ▸ hmeets).at hrun
  exact S.step hc ha hstep

/-- Every answer given in a run of calls one after another has what `Post` says of it, in the
    state in which it is given. -/
theorem Serves.answers (S : Serves D ok good I Post) {init : Configuration ι σ κ E Ans α}
    (hinit : I init.shared) (hidle : ∀ i, ¬ (init.calls i).Active) {acts before after : List (Act ι κ χ)}
    (hmeets : D.machine.Meets (OneByOne ok good) init acts) (hsplit : acts = before ++ a :: after)
    (hrun : D.machine.run init before = some c) (hstep : D.machine.step c a = some c') {i : ι}
    {k : κ} {b : α} (hanswer : Answers c c' i k b) : Post k c'.shared b :=
  (S.run (Or.inl ⟨hidle, hinit⟩) hmeets hsplit hrun hstep).2 i k b hanswer

end Pool

end SocialApi.Concurrent
