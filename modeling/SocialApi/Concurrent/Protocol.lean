import SocialApi.Concurrent.Prog

/-!
# Protocols: what a call may ask and what it may be told

A protocol gives every call a ghost state `g : G` that no code reads. It says
which operations a call in ghost state `g` may perform (`asks`) and which
answers it may get, with the ghost state afterwards (`answers`). `Obeys P Q g p`
says that the program `p`, started in ghost state `g`, only performs operations
the protocol allows, whatever the allowed answers are, and ends with `Q`.

It is a predicate transformer in the shape of a weakest precondition, and has
the rules of one (`obeys_bind`, `Obeys.mono`, `obeys_lift`).
-/

namespace SocialApi.Concurrent

/-- Which operations are allowed and which answers are to be expected, per ghost state. -/
structure Protocol (E : Type) (Ans : E → Type) (G : Type) where
  asks : G → E → Prop
  answers : G → (e : E) → Ans e → G → Prop

namespace Protocol

variable {E E' : Type} {Ans : E → Type} {Ans' : E' → Type} {G α β : Type}

/-- The program keeps to the protocol from ghost state `g` on and ends with `Q`. -/
def Obeys (P : Protocol E Ans G) (Q : G → α → Prop) : G → Prog E Ans α → Prop
  | g, .ret a => Q g a
  | g, .op e k => P.asks g e ∧ ∀ r g', P.answers g e r g' → Obeys P Q g' (k r)

/-- The protocol seen through a renaming of the operations. -/
def comap (P : Protocol E' Ans' G) (inj : E → E') (back : ∀ e, Ans' (inj e) → Ans e) :
    Protocol E Ans G where
  asks g e := P.asks g (inj e)
  answers g e r g' := ∃ r', back e r' = r ∧ P.answers g (inj e) r' g'

variable {P : Protocol E Ans G} {Q Q' : G → α → Prop} {g : G}

@[simp] theorem obeys_ret (a : α) : P.Obeys Q g (.ret a) ↔ Q g a := Iff.rfl

@[simp] theorem obeys_op (e : E) (k : Ans e → Prog E Ans α) :
    P.Obeys Q g (.op e k) ↔ P.asks g e ∧ ∀ r g', P.answers g e r g' → P.Obeys Q g' (k r) :=
  Iff.rfl

@[simp] theorem obeys_perform (e : E) (Q : G → Ans e → Prop) :
    P.Obeys Q g (.perform e) ↔ P.asks g e ∧ ∀ r g', P.answers g e r g' → Q g' r := Iff.rfl

theorem Obeys.mono {p : Prog E Ans α} (h : P.Obeys Q g p) (hQ : ∀ g a, Q g a → Q' g a) :
    P.Obeys Q' g p := by
  induction p generalizing g with
  | ret a => exact hQ g a h
  | op e k ih => exact ⟨h.1, fun r g' hr => ih r (h.2 r g' hr)⟩

theorem obeys_bind {p : Prog E Ans α} {f : α → Prog E Ans β} {Q : G → β → Prop} :
    P.Obeys Q g (p.bind f) ↔ P.Obeys (fun g' a => P.Obeys Q g' (f a)) g p := by
  induction p generalizing g with
  | ret a => exact Iff.rfl
  | op e k ih =>
    simp only [Prog.op_bind, obeys_op]
    exact and_congr_right fun _ => forall₃_congr fun r g' _ => ih r

/-- The rule of sequential composition, with the middle condition `Q` named. -/
theorem Obeys.bind {p : Prog E Ans α} {f : α → Prog E Ans β} {R : G → β → Prop}
    (h : P.Obeys Q g p) (hf : ∀ g' a, Q g' a → P.Obeys R g' (f a)) : P.Obeys R g (p.bind f) :=
  obeys_bind.mpr (h.mono hf)

theorem obeys_lift {P : Protocol E' Ans' G} {inj : E → E'} {back : ∀ e, Ans' (inj e) → Ans e}
    {p : Prog E Ans α} : P.Obeys Q g (p.lift inj back) ↔ (P.comap inj back).Obeys Q g p := by
  induction p generalizing g with
  | ret a => exact Iff.rfl
  | op e k ih =>
    simp only [Prog.lift, obeys_op, comap]
    refine and_congr_right fun _ => ⟨?_, ?_⟩
    · rintro h r g' ⟨r', rfl, hr⟩; exact (ih _).mp (h r' g' hr)
    · intro h r' g' hr; exact (ih _).mpr (h _ g' ⟨r', rfl, hr⟩)

/-- What every answer does to the ghost state, the whole program does to it. -/
theorem Obeys.along {R : G → G → Prop} (hrefl : ∀ g, R g g)
    (htrans : ∀ g g' g'', R g g' → R g' g'' → R g g'')
    (hstep : ∀ g e r g', P.asks g e → P.answers g e r g' → R g g') {p : Prog E Ans α}
    (h : P.Obeys Q g p) : P.Obeys (fun g' a => R g g' ∧ Q g' a) g p := by
  induction p generalizing g with
  | ret a => exact ⟨hrefl g, h⟩
  | op e k ih =>
    refine ⟨h.1, fun r g' hr => (ih r (h.2 r g' hr)).mono fun g'' a hq => ⟨?_, hq.2⟩⟩
    exact htrans g g' g'' (hstep g e r g' h.1 hr) hq.1

/-- A program whose operations are all allowed in `g` and leave it alone obeys
    the protocol there. -/
theorem obeys_of_all {S : E → Prop} (hS : ∀ e, S e → P.asks g e ∧ ∀ r g', P.answers g e r g' → g' = g)
    {p : Prog E Ans α} (hp : p.All S) (hQ : ∀ a, Q g a) : P.Obeys Q g p := by
  induction p with
  | ret a => exact hQ a
  | op e k ih =>
    refine ⟨(hS e hp.1).1, fun r g' hr => ?_⟩
    cases (hS e hp.1).2 r g' hr
    exact ih r (hp.2 r)

/-- What every end of the program has, it has when it obeys the protocol. -/
theorem Obeys.and_ends {T : α → Prop} {p : Prog E Ans α} (h : P.Obeys Q g p) (hT : p.Ends T) :
    P.Obeys (fun g' a => Q g' a ∧ T a) g p := by
  induction p generalizing g with
  | ret a => exact ⟨h, hT⟩
  | op e k ih => exact ⟨h.1, fun r g' hr => ih r (h.2 r g' hr) (hT r)⟩

/-- The same, for what the program can return. -/
theorem obeys_of_all_of_ends {S : E → Prop} {T : α → Prop}
    (hS : ∀ e, S e → P.asks g e ∧ ∀ r g', P.answers g e r g' → g' = g) {p : Prog E Ans α}
    (hp : p.All S) (hT : p.Ends T) : P.Obeys (fun g' a => g' = g ∧ T a) g p :=
  (obeys_of_all hS hp fun _ => rfl).and_ends hT

/-- A program whose operations are all allowed wherever `I` holds, and keep `I`, obeys the
    protocol there. -/
theorem obeys_of_all_of_keeps {S : E → Prop} {I : G → Prop}
    (hS : ∀ g e, I g → S e → P.asks g e ∧ ∀ r g', P.answers g e r g' → I g') {p : Prog E Ans α}
    (hp : p.All S) (hg : I g) : P.Obeys (fun g' _ => I g') g p := by
  induction p generalizing g with
  | ret a => exact hg
  | op e k ih =>
    exact ⟨(hS g e hg hp.1).1, fun r g' hr => ih r (hp.2 r) ((hS g e hg hp.1).2 r g' hr)⟩

/-- If a program owes an operation of `S`, may end only when it owes nothing, and every other
    operation it may perform meanwhile is answered and leaves the debt standing, then the
    program performs an operation of `S`. -/
theorem willIn_of_obeys {owes : G → Prop} {S : E → Prop}
    (hnext : ∀ g e, owes g → P.asks g e → ¬ S e → ∀ r, ∃ g', P.answers g e r g' ∧ owes g')
    (hend : ∀ g a, Q g a → ¬ owes g) {p : Prog E Ans α} (h : P.Obeys Q g p) (hg : owes g) :
    p.WillIn S := by
  induction p generalizing g with
  | ret a => exact hend g a h hg
  | op e k ih =>
    by_cases he : S e
    · exact Or.inl he
    · refine Or.inr fun r => ?_
      obtain ⟨g', hr, hg'⟩ := hnext g e hg h.1 he r
      exact ih r (h.2 r g' hr) hg'

end Protocol

end SocialApi.Concurrent
