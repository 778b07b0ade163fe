import Mathlib

/-!
# Broadcast channels

A channel that keeps the last values it was sent in a ring of `capacity` slots, each value with
its position among all values sent. A receiver is the position it reads next: it is given every
value in turn, unless the value has been overwritten by then; it is told how many it has missed
and goes on with the oldest that is left.

* `Broadcast.Holds`: what the slots hold, in terms of all values sent so far; `Holds.send`.
* `Broadcast.Holds.recv_ok`, `recv_lagged`, `recv_empty`: what a receiver is given, in these terms.
* `Broadcast.Holds.waiting_eq`: the values that are ahead of a receiver that has missed none.
-/

namespace SocialApi.Concurrent

/-- The slots of a broadcast channel and the position of the next value. -/
structure Broadcast (α : Type) where
  slots : ℕ → Option (ℕ × α)
  tail : ℕ

/-- What a receiver is given: a value, the number of values it has missed, or nothing yet. -/
inductive Recv (α : Type) where
  | ok (v : α)
  | lagged (skipped : ℕ)
  | empty
  deriving DecidableEq, Repr

namespace Broadcast

variable {α : Type}

/-- A new channel. -/
def new : Broadcast α := ⟨fun _ => none, 0⟩

/-- The value takes the slot of the oldest one. -/
def send (capacity : ℕ) (r : Broadcast α) (v : α) : Broadcast α :=
  ⟨Function.update r.slots (r.tail % capacity) (some (r.tail, v)), r.tail + 1⟩

/-- What a receiver that reads position `next` is given, and what it reads after that. -/
def recv (capacity : ℕ) (r : Broadcast α) (next : ℕ) : Recv α × ℕ :=
  match r.slots (next % capacity) with
  | none => (.empty, next)
  | some (pos, v) =>
    if pos = next then (.ok v, next + 1)
    else if pos + capacity = next then (.empty, next)
    else (.lagged (r.tail - capacity - next), r.tail - capacity)

/-- The values from position `next` on, as far as the slots still have them. -/
def waiting (capacity : ℕ) (r : Broadcast α) (next : ℕ) : List α :=
  (List.range' next (r.tail - next)).filterMap fun p => (r.slots (p % capacity)).map Prod.snd

/-! ## The slots and the values sent -/

/-- The slots hold the last `capacity` of the values `sent`, each at its place. -/
structure Holds (capacity : ℕ) (r : Broadcast α) (sent : List α) : Prop where
  tail : r.tail = sent.length
  slot : ∀ n p v, r.slots n = some (p, v) →
    p % capacity = n ∧ sent[p]? = some v ∧ sent.length ≤ p + capacity
  written : ∀ p < sent.length, r.slots (p % capacity) ≠ none

variable {capacity : ℕ} {r : Broadcast α} {sent : List α} {next p q : ℕ} {v : α}

theorem holds_new (capacity : ℕ) : Holds capacity (new : Broadcast α) [] where
  tail := rfl
  slot _ _ _ h := by cases h
  written _ h := by cases h

theorem Holds.send (h : Holds capacity r sent) (hcapacity : 0 < capacity) (v : α) :
    Holds capacity (r.send capacity v) (sent ++ [v]) where
  tail := by simp [Broadcast.send, h.tail]
  slot n p w hn := by
    have hn : Function.update r.slots (r.tail % capacity) (some (r.tail, v)) n = some (p, w) := hn
    rw [h.tail] at hn
    by_cases hslot : n = sent.length % capacity
    · subst hslot
      rw [Function.update_self] at hn
      cases hn
      refine ⟨rfl, by simp, ?_⟩
      rw [List.length_append, List.length_singleton]
      omega
    · rw [Function.update_of_ne hslot] at hn
      obtain ⟨hp, hv, hle⟩ := h.slot n p w hn
      -- the value that is overwritten had this slot to itself
      have hne : p + capacity ≠ sent.length := by
        intro he
        rw [← he, Nat.add_mod_right] at hslot
        exact hslot hp.symm
      refine ⟨hp, ?_, ?_⟩
      · rw [List.getElem?_append_left (List.getElem?_eq_some_iff.mp hv).1]
        exact hv
      · rw [List.length_append, List.length_singleton]
        omega
  written p hp := by
    show Function.update r.slots (r.tail % capacity) (some (r.tail, v)) (p % capacity) ≠ none
    rw [h.tail]
    by_cases hslot : p % capacity = sent.length % capacity
    · rw [hslot, Function.update_self]
      simp
    · rw [Function.update_of_ne hslot]
      refine h.written p ?_
      have hne : p ≠ sent.length := fun he => hslot (by rw [he])
      rw [List.length_append, List.length_singleton] at hp
      omega

/-- Positions less than `capacity` apart have slots of their own. -/
theorem eq_of_mod_eq (hmod : p % capacity = q % capacity) (hp : p < q + capacity)
    (hq : q < p + capacity) : p = q := by
  rcases le_total p q with hle | hle
  · have hdvd := (Nat.modEq_iff_dvd' hle).mp hmod
    have hzero := Nat.eq_zero_of_dvd_of_lt hdvd (by omega)
    omega
  · have hdvd := (Nat.modEq_iff_dvd' hle).mp (Nat.ModEq.symm hmod)
    have hzero := Nat.eq_zero_of_dvd_of_lt hdvd (by omega)
    omega

/-- A value that has not been overwritten is in its slot. -/
theorem Holds.kept (h : Holds capacity r sent) (hp : sent[p]? = some v)
    (hle : sent.length ≤ p + capacity) : r.slots (p % capacity) = some (p, v) := by
  have hlt := (List.getElem?_eq_some_iff.mp hp).1
  cases hslot : r.slots (p % capacity) with
  | none => exact absurd hslot (h.written p hlt)
  | some entry =>
    obtain ⟨q, w⟩ := entry
    obtain ⟨hmod, hq, hle'⟩ := h.slot _ q w hslot
    have hlt' := (List.getElem?_eq_some_iff.mp hq).1
    have heq : q = p := eq_of_mod_eq hmod (by omega) (by omega)
    subst heq
    rw [hq] at hp
    cases hp
    rfl

/-! ## Receivers -/

/-- A receiver that has not been overtaken is given the value at its position. -/
theorem Holds.recv_ok (h : Holds capacity r sent) (hp : sent[next]? = some v)
    (hle : sent.length ≤ next + capacity) : r.recv capacity next = (.ok v, next + 1) := by
  unfold recv
  rw [h.kept hp hle]
  exact if_pos rfl

/-- A receiver that has read everything has to wait. -/
theorem Holds.recv_empty (h : Holds capacity r sent) (hcapacity : 0 < capacity) :
    r.recv capacity sent.length = (.empty, sent.length) := by
  unfold recv
  cases hslot : r.slots (sent.length % capacity) with
  | none => rfl
  | some entry =>
    obtain ⟨p, v⟩ := entry
    obtain ⟨hmod, hp, hle⟩ := h.slot _ p v hslot
    have hlt := (List.getElem?_eq_some_iff.mp hp).1
    have hmod : (p + capacity) % capacity = sent.length % capacity := by
      rw [Nat.add_mod_right]
      exact hmod
    have heq : p + capacity = sent.length := eq_of_mod_eq hmod (by omega) (by omega)
    show (if p = sent.length then _ else if p + capacity = sent.length then _ else _) = _
    rw [if_neg (by omega), if_pos heq]

/-- A receiver that has been overtaken is told by how much, and goes on with the oldest value
    that is left. -/
theorem Holds.recv_lagged (h : Holds capacity r sent) (hlt : next + capacity < sent.length) :
    r.recv capacity next = (.lagged (sent.length - capacity - next), sent.length - capacity) := by
  unfold recv
  cases hslot : r.slots (next % capacity) with
  | none => exact absurd hslot (h.written next (by omega))
  | some entry =>
    obtain ⟨p, v⟩ := entry
    obtain ⟨-, -, hle⟩ := h.slot _ p v hslot
    show (if p = next then _ else if p + capacity = next then _ else _) = _
    rw [if_neg (by omega), if_neg (by omega), h.tail]

/-- What a receiver is given, one case each. -/
theorem Holds.recv_cases (h : Holds capacity r sent) (hcapacity : 0 < capacity)
    (hle : next ≤ sent.length) :
    (∃ v, sent[next]? = some v ∧ sent.length ≤ next + capacity ∧
      r.recv capacity next = (.ok v, next + 1)) ∨
    (next + capacity < sent.length ∧
      r.recv capacity next = (.lagged (sent.length - capacity - next), sent.length - capacity)) ∨
    (next = sent.length ∧ r.recv capacity next = (.empty, next)) := by
  by_cases hbehind : next + capacity < sent.length
  · exact Or.inr (Or.inl ⟨hbehind, h.recv_lagged hbehind⟩)
  · by_cases hend : next = sent.length
    · subst hend
      exact Or.inr (Or.inr ⟨rfl, h.recv_empty hcapacity⟩)
    · have hlt : next < sent.length := by omega
      have hv := List.getElem?_eq_getElem hlt
      exact Or.inl ⟨_, hv, by omega, h.recv_ok hv (by omega)⟩

/-- What is ahead of a receiver that has not been overtaken is all that it has not read. -/
theorem Holds.waiting_eq (h : Holds capacity r sent) (hle : sent.length ≤ next + capacity) :
    r.waiting capacity next = sent.drop next := by
  unfold waiting
  rw [h.tail]
  have hslots : (List.range' next (sent.length - next)).filterMap
      (fun p => (r.slots (p % capacity)).map Prod.snd) =
      (List.range' next (sent.length - next)).filterMap fun p => sent[p]? := by
    apply List.filterMap_congr
    intro p hp
    obtain ⟨hge, hlt⟩ := List.mem_range'_1.mp hp
    have hlt : p < sent.length := by omega
    have hv := List.getElem?_eq_getElem hlt
    rw [h.kept hv (by omega), hv]
    rfl
  rw [hslots]
  clear hslots hle h
  generalize hk : sent.length - next = k
  induction k generalizing next with
  | zero =>
    rw [List.drop_eq_nil_of_le (by omega)]
    rfl
  | succ k ih =>
    have hlt : next < sent.length := by omega
    rw [List.range'_succ, List.filterMap_cons, List.getElem?_eq_getElem hlt, ih (by omega),
      List.drop_eq_getElem_cons hlt]

end Broadcast

end SocialApi.Concurrent
