import Mathlib

/-!
# Programs over atomic operations

`Prog E Ans α` is a computation that performs operations `e : E` one at a time,
continues with the answer in `Ans e`, and ends in a value of `α`. An `async fn`
whose accesses to shared state are the operations is such a program: the
scheduler may run other programs between any two operations.

* `Prog.bind` and its laws give `do` notation.
* `Prog.lift` renames operations along a map of signatures.
* `Prog.All`: every operation the program can perform is in a set.
* `Prog.Ends`: every value the program can return is in a set.
* `Prog.WillIn`: every execution performs an operation of a set.
* `Prog.exec`: the program run on its own.
-/

namespace SocialApi.Concurrent

/-- A program over operations `E` with answers `Ans`. -/
inductive Prog (E : Type) (Ans : E → Type) (α : Type) : Type where
  | ret (a : α)
  | op (e : E) (k : Ans e → Prog E Ans α)

namespace Prog

variable {E E' : Type} {Ans : E → Type} {Ans' : E' → Type} {α β γ : Type}

/-- Sequential composition. -/
def bind : Prog E Ans α → (α → Prog E Ans β) → Prog E Ans β
  | ret a, f => f a
  | op e k, f => op e fun r => (k r).bind f

instance : Monad (Prog E Ans) where
  pure := ret
  bind := bind

/-- The program that performs `e` and returns its answer. -/
def perform (e : E) : Prog E Ans (Ans e) := op e ret

/-- The program with every operation renamed by `inj`; `back` reads the answers. -/
def lift (inj : E → E') (back : ∀ e, Ans' (inj e) → Ans e) : Prog E Ans α → Prog E' Ans' α
  | ret a => ret a
  | op e k => op (inj e) fun r => (k (back e r)).lift inj back

@[simp] theorem pure_eq (a : α) : (pure a : Prog E Ans α) = ret a := rfl

@[simp] theorem bind_eq (p : Prog E Ans α) (f : α → Prog E Ans β) : p >>= f = p.bind f := rfl

@[simp] theorem ret_bind (a : α) (f : α → Prog E Ans β) : (ret a : Prog E Ans α).bind f = f a :=
  rfl

@[simp] theorem op_bind (e : E) (k : Ans e → Prog E Ans α) (f : α → Prog E Ans β) :
    (op e k).bind f = op e fun r => (k r).bind f := rfl

theorem bind_assoc (p : Prog E Ans α) (f : α → Prog E Ans β) (g : β → Prog E Ans γ) :
    (p.bind f).bind g = p.bind fun a => (f a).bind g := by
  induction p with
  | ret a => rfl
  | op e k ih => simp only [op_bind, ih]

/-! ## The operations a program can perform -/

/-- Every operation of the program is in `S`. -/
def All (S : E → Prop) : Prog E Ans α → Prop
  | ret _ => True
  | op e k => S e ∧ ∀ r, (k r).All S

@[simp] theorem all_ret (S : E → Prop) (a : α) : (ret a : Prog E Ans α).All S := trivial

@[simp] theorem all_op (S : E → Prop) (e : E) (k : Ans e → Prog E Ans α) :
    (op e k).All S ↔ S e ∧ ∀ r, (k r).All S := Iff.rfl

theorem All.mono {S T : E → Prop} (hST : ∀ e, S e → T e) {p : Prog E Ans α} (h : p.All S) :
    p.All T := by
  induction p with
  | ret a => trivial
  | op e k ih => exact ⟨hST e h.1, fun r => ih r (h.2 r)⟩

theorem All.and {S T : E → Prop} {p : Prog E Ans α} (h : p.All S) (h' : p.All T) :
    p.All fun e => S e ∧ T e := by
  induction p with
  | ret a => trivial
  | op e k ih => exact ⟨⟨h.1, h'.1⟩, fun r => ih r (h.2 r) (h'.2 r)⟩

theorem all_of_forall {S : E → Prop} (h : ∀ e, S e) (p : Prog E Ans α) : p.All S := by
  induction p with
  | ret a => trivial
  | op e k ih => exact ⟨h e, ih⟩

theorem All.bind {S : E → Prop} {p : Prog E Ans α} {f : α → Prog E Ans β} (hp : p.All S)
    (hf : ∀ a, (f a).All S) : (p.bind f).All S := by
  induction p with
  | ret a => exact hf a
  | op e k ih => exact ⟨hp.1, fun r => ih r (hp.2 r)⟩

theorem All.lift {S : E' → Prop} {inj : E → E'} {back : ∀ e, Ans' (inj e) → Ans e}
    {p : Prog E Ans α} (hp : p.All fun e => S (inj e)) : (p.lift inj back).All S := by
  induction p with
  | ret a => trivial
  | op e k ih => exact ⟨hp.1, fun r => ih (back e r) (hp.2 _)⟩

/-! ## The values a program can return -/

/-- Every value the program can return is in `S`. -/
def Ends (S : α → Prop) : Prog E Ans α → Prop
  | ret a => S a
  | op _ k => ∀ r, (k r).Ends S

theorem Ends.mono {S T : α → Prop} {p : Prog E Ans α} (h : p.Ends S) (hST : ∀ a, S a → T a) :
    p.Ends T := by
  induction p with
  | ret a => exact hST a h
  | op e k ih => exact fun r => ih r (h r)

theorem ends_of_forall {S : α → Prop} (h : ∀ a, S a) (p : Prog E Ans α) : p.Ends S := by
  induction p with
  | ret a => exact h a
  | op e k ih => exact ih

theorem Ends.bind {S : β → Prop} {f : α → Prog E Ans β} (hf : ∀ a, (f a).Ends S)
    (p : Prog E Ans α) : (p.bind f).Ends S := by
  induction p with
  | ret a => exact hf a
  | op e k ih => exact fun r => ih r

/-- `All.bind` with what is known of the value in between. -/
theorem All.bind_of_ends {S : E → Prop} {T : α → Prop} {p : Prog E Ans α} {f : α → Prog E Ans β}
    (hp : p.All S) (hT : p.Ends T) (hf : ∀ a, T a → (f a).All S) : (p.bind f).All S := by
  induction p with
  | ret a => exact hf a hT
  | op e k ih => exact ⟨hp.1, fun r => ih r (hp.2 r) (hT r)⟩

/-! ## Operations a program cannot avoid -/

/-- Every execution of the program performs an operation of `S`. -/
def WillIn (S : E → Prop) : Prog E Ans α → Prop
  | ret _ => False
  | op e k => S e ∨ ∀ r, (k r).WillIn S

theorem WillIn.mono {S T : E → Prop} (hST : ∀ e, S e → T e) {p : Prog E Ans α} (h : p.WillIn S) :
    p.WillIn T := by
  induction p with
  | ret a => exact h
  | op e k ih =>
    rcases h with h | h
    · exact Or.inl (hST e h)
    · exact Or.inr fun r => ih r (h r)

/-! ## Programs run on their own -/

/-- What the program leaves behind and returns when nothing else runs; `none` if an operation
    has no outcome. -/
def exec {σ : Type} (h : σ → (e : E) → Option (σ × Ans e)) : σ → Prog E Ans α → Option (σ × α)
  | s, ret a => some (s, a)
  | s, op e k => (h s e).bind fun r => (k r.2).exec h r.1

theorem exec_bind {σ : Type} (h : σ → (e : E) → Option (σ × Ans e)) (s : σ) (p : Prog E Ans α)
    (f : α → Prog E Ans β) :
    (p.bind f).exec h s = (p.exec h s).bind fun r => (f r.2).exec h r.1 := by
  induction p generalizing s with
  | ret a => rfl
  | op e k ih => simp only [op_bind, exec, Option.bind_assoc, ih]

@[simp] theorem exec_ret {σ : Type} (h : σ → (e : E) → Option (σ × Ans e)) (s : σ) (a : α) :
    (ret a : Prog E Ans α).exec h s = some (s, a) := rfl

@[simp] theorem exec_perform {σ : Type} (h : σ → (e : E) → Option (σ × Ans e)) (s : σ) (e : E) :
    (perform e : Prog E Ans (Ans e)).exec h s = h s e := by
  unfold perform exec
  cases h s e <;> rfl

/-- A program runs to its end if every operation has an outcome. -/
theorem exec_total {σ : Type} {h : σ → (e : E) → Option (σ × Ans e)}
    (hh : ∀ s e, ∃ r, h s e = some r) (s : σ) (p : Prog E Ans α) : ∃ r, p.exec h s = some r := by
  induction p generalizing s with
  | ret a => exact ⟨_, rfl⟩
  | op e k ih =>
    obtain ⟨r, hr⟩ := hh s e
    obtain ⟨r', hr'⟩ := ih r.2 r.1
    refine ⟨r', ?_⟩
    simp only [exec, hr, Option.bind_some, hr']

/-- What the operations in `S` keep, a program made of them keeps. -/
theorem exec_keeps {σ : Type} {h : σ → (e : E) → Option (σ × Ans e)} {S : E → Prop} {I : σ → Prop}
    (hI : ∀ s e r, S e → h s e = some r → I s → I r.1) {p : Prog E Ans α} (hp : p.All S) {s : σ}
    {r : σ × α} (hr : p.exec h s = some r) (hs : I s) : I r.1 := by
  induction p generalizing s with
  | ret a => cases hr; exact hs
  | op e k ih =>
    obtain ⟨m, hm, hr⟩ := Option.bind_eq_some_iff.mp hr
    exact ih m.2 (hp.2 m.2) hr (hI s e m hp.1 hm hs)

end Prog

end SocialApi.Concurrent
