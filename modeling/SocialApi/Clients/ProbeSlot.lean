import SocialApi.Clients.CircuitBreaker

/-!
# Who holds the probe slot

The users of a breaker each call `allow_request` and later record the outcome. The
slot is in order (`SlotInv`) when it is taken only while some user is inside, that
is, admitted and with its outcome not yet recorded. `G` is whatever is known of a
user, and `inside` says which of it means inside.

* `SlotInv.allowRequest`, `SlotInv.recordSuccess`, `SlotInv.recordFailure`: the
  operations of the breaker keep the slot in order.
* `SlotInv.leave`: so does a user that leaves without a record, if the slot is free
  or another user is inside.
-/

namespace SocialApi.Clients

open CircuitBreaker

variable {ι G : Type} {inside : G → Prop} {inner : Inner} {γ : ι → Option G}
  {i : ι} {g g' : G}

/-- Some user is inside. -/
def SomeInside (inside : G → Prop) (γ : ι → Option G) : Prop := ∃ i g, γ i = some g ∧ inside g

/-- The slot is taken only while some user is inside. -/
def SlotInv (inside : G → Prop) (inner : Inner) (γ : ι → Option G) : Prop :=
  inner.Ok ∧ (inner.probeInFlight = true → SomeInside inside γ)

theorem SomeInside.update [DecidableEq ι] (h : SomeInside inside γ) (hγ : γ i = some g)
    (hg : inside g → inside g') : SomeInside inside (Function.update γ i (some g')) := by
  obtain ⟨j, gj, hj, hin⟩ := h
  by_cases hji : j = i
  · subst hji
    rw [hγ] at hj
    cases hj
    exact ⟨j, g', Function.update_self _ _ _, hg hin⟩
  · exact ⟨j, gj, (Function.update_of_ne hji _ _).trans hj, hin⟩

/-- A user that is not inside can be replaced by anything. -/
theorem SomeInside.update_of_not [DecidableEq ι] (h : SomeInside inside γ)
    (hγ : ∀ g, γ i = some g → ¬ inside g)
    (v : Option G) : SomeInside inside (Function.update γ i v) := by
  obtain ⟨j, gj, hj, hin⟩ := h
  have hji : j ≠ i := by rintro rfl; exact hγ gj hj hin
  exact ⟨j, gj, (Function.update_of_ne hji _ _).trans hj, hin⟩

theorem slotInv_new : SlotInv inside CircuitBreaker.new γ :=
  ⟨ok_new, fun hp => by cases hp⟩

/-- A step that leaves the breaker alone keeps the slot in order if the user does not leave
    the inside. -/
theorem SlotInv.same [DecidableEq ι] (h : SlotInv inside inner γ) (hγ : γ i = some g)
    (hg : inside g → inside g') :
    SlotInv inside inner (Function.update γ i (some g')) :=
  ⟨h.1, fun hp => (h.2 hp).update hγ hg⟩

/-- A user that is not inside may come or go. -/
theorem SlotInv.of_not [DecidableEq ι] (h : SlotInv inside inner γ)
    (hγ : ∀ g, γ i = some g → ¬ inside g)
    (v : Option G) : SlotInv inside inner (Function.update γ i v) :=
  ⟨h.1, fun hp => (h.2 hp).update_of_not hγ v⟩

/-- A user may leave without a record if the slot is free or another user is inside. -/
theorem SlotInv.leave [DecidableEq ι] (h : SlotInv inside inner γ)
    (hother : inner.probeInFlight = true → ∃ j g, j ≠ i ∧ γ j = some g ∧ inside g) (v : Option G) :
    SlotInv inside inner (Function.update γ i v) := by
  refine ⟨h.1, fun hp => ?_⟩
  obtain ⟨j, g, hji, hj, hin⟩ := hother hp
  exact ⟨j, g, (Function.update_of_ne hji _ _).trans hj, hin⟩

/-- Whoever takes the slot is inside. -/
theorem SlotInv.allowRequest [DecidableEq ι] (h : SlotInv inside inner γ) (hγ : γ i = some g)
    (hg : ¬ inside g)
    {admitted rejected : G} (ha : inside admitted) (config : CircuitBreakerConfig)
    (now : Instant) :
    SlotInv inside (CircuitBreaker.allowRequest config now inner).1
      (Function.update γ i (some
        (if (CircuitBreaker.allowRequest config now inner).2 then admitted else rejected))) := by
  refine ⟨ok_allowRequest h.1, fun hp => ?_⟩
  have hout : ∀ g', γ i = some g' → ¬ inside g' := by
    intro g' hg'
    rw [hγ] at hg'
    cases hg'
    exact hg
  rcases allowRequest_cases config now inner with ⟨-, he⟩ | ⟨inner', he, -⟩ | ⟨he, -⟩
  · rw [he] at hp ⊢
    exact (h.2 hp).update_of_not hout _
  · rw [he]
    exact ⟨i, admitted, Function.update_self _ _ _, ha⟩
  · rw [he] at hp ⊢
    exact (h.2 hp).update_of_not hout _

theorem SlotInv.recordSuccess (h : SlotInv inside inner γ) (config : CircuitBreakerConfig)
    (now : Instant) (γ' : ι → Option G) :
    SlotInv inside (CircuitBreaker.recordSuccess config now inner) γ' := by
  refine ⟨ok_recordSuccess h.1, fun hp => ?_⟩
  rw [(recordSuccess_state config now inner).1] at hp
  cases hp

theorem slotInv_recordFailure (config : CircuitBreakerConfig) (now now' : Instant)
    (inner : Inner) (γ' : ι → Option G) :
    SlotInv inside (CircuitBreaker.recordFailure config now now' inner) γ' := by
  refine ⟨ok_recordFailure, fun hp => ?_⟩
  rw [(recordFailure_state config now now' inner).1] at hp
  cases hp

/-- With no user inside, the slot is free, and a breaker that is not open or whose recovery
    time has passed admits the next request. -/
theorem SlotInv.free (h : SlotInv inside inner γ) (hnone : ∀ i g, γ i = some g → ¬ inside g)
    (config : CircuitBreakerConfig) :
    inner.probeInFlight = false ∧
      ∀ now, (inner.state = .opened → recoveryElapsed config now inner = true) →
        (CircuitBreaker.allowRequest config now inner).2 = true := by
  have hfree : inner.probeInFlight = false := by
    rw [← Bool.not_eq_true]
    intro hp
    obtain ⟨i, g, hi, hin⟩ := h.2 hp
    exact hnone i g hi hin
  exact ⟨hfree, fun now => allowRequest_of_free hfree⟩

end SocialApi.Clients
