import SocialApi.Concurrent.Tracked

/-!
# Requests in flight

`track_inflight` (`middleware/inflight.rs`) adds one to `inflight_count` before the inner
service runs and takes one away after it has returned, and `main` waits after the servers
have stopped until the count is 0. The inner service is any pool of calls: each of its
operations is an await point, where the request's future can be dropped. A future that is
dropped there, or whose service panics, never comes to `inflight_decrement`. The code runs
`inflight_decrement` in the poll in which the service returns; here a drop may also fall
between the two, so that the runs of the code are among those of the model.

* `inflight_iff`: the count is the number of the requests inside the middleware in every
  state of a run exactly when no request is dropped inside it, and no request enters while
  `2 ^ 64 - 1` are inside, where the `usize` would go round.
* `abortedRequest_counted`: after a client has gone away in the middle of its request, the
  drain loop waits for it until the deadline.
-/

namespace SocialApi.Inflight

open SocialApi.Concurrent

/-! ## The middleware -/

/-- The operations of a request that passes through the middleware; `E` are those of the inner
    service. -/
inductive Op (E : Type) where
  /-- `inflight_increment` (state.rs:181–183). -/
  | inflightIncrement
  /-- `inflight_decrement` (state.rs:185–187). -/
  | inflightDecrement
  | inner (e : E)

@[reducible] def Op.Ans {E : Type} (Ans : E → Type) : Op E → Type
  | inflightIncrement => Unit
  | inflightDecrement => Unit
  | inner e => Ans e

/-- The count, a `usize`, and what the inner service has. -/
structure Shared (τ : Type) where
  inflightCount : UInt64
  rest : τ

variable {ι τ κ E : Type} {Ans : E → Type} {α χ : Type}

/-- One operation. -/
def perform (o : Op E) : Prog (Op E) (Op.Ans Ans) (Op.Ans Ans o) := Prog.perform o

/-- `track_inflight` (inflight.rs:6–15). -/
def trackInflight (next : Prog E Ans α) : Prog (Op E) (Op.Ans Ans) α := do
  perform .inflightIncrement
  let response ← next.lift .inner fun _ r => r
  perform .inflightDecrement
  return response

/-- What one operation does. The two on the count leave nothing open. -/
def handle (D : Pool ι τ κ E Ans α χ) (s : Shared τ) (i : ι) :
    (o : Op E) → χ → Option (Shared τ × Op.Ans Ans o)
  | .inflightIncrement, _ => some (⟨s.inflightCount + 1, s.rest⟩, ())
  | .inflightDecrement, _ => some (⟨s.inflightCount - 1, s.rest⟩, ())
  | .inner e, x => (D.handle s.rest i e x).map fun r => (⟨s.inflightCount, r.1⟩, r.2)

/-- Any number of requests of the service `D`, each passing through the middleware. -/
def tracked (D : Pool ι τ κ E Ans α χ) : Pool ι (Shared τ) κ (Op E) (Op.Ans Ans) α χ where
  init s := s.inflightCount = 0 ∧ D.init s.rest
  prog k := trackInflight (D.prog k)
  start s i k := (D.start s.rest i k).map fun rest => ⟨s.inflightCount, rest⟩
  handle := handle D
  drop s i := (D.drop s.rest i).map fun rest => ⟨s.inflightCount, rest⟩
  env s x := (D.env s.rest x).map fun rest => ⟨s.inflightCount, rest⟩

/-! ## The drain loop -/

/-- How the drain loop ends. -/
inductive DrainEnd where
  /-- All in-flight requests drained. -/
  | drained
  /-- Drain timeout reached. -/
  | forced (remaining : UInt64)
  deriving DecidableEq, Repr

/-- The drain loop of `main` (main.rs:127–148), given what each round reads off the count and
    the clock: how often it has slept 100 ms, and how it ends. -/
def drain (drainDeadline : ℕ) : List (UInt64 × ℕ) → Option (ℕ × DrainEnd)
  | [] => none
  | (count, now) :: rounds =>
    if count = 0 then some (0, .drained)
    else if now ≥ drainDeadline then some (0, .forced count)
    else (drain drainDeadline rounds).map fun r => (r.1 + 1, r.2)

/-! ## Specification -/

/-- A configuration of requests. -/
abbrev TrackedConfig (ι τ κ E : Type) (Ans : E → Type) (α : Type) :=
  Configuration ι (Shared τ) κ (Op E) (Op.Ans Ans) α

/-- A request that has been counted in and has more to do. -/
def Inside : CallState κ (Op E) (Op.Ans Ans) α → Prop
  | .running _ (.op .inflightIncrement _) => False
  | .running _ (.op _ _) => True
  | _ => False

/-- The requests inside the middleware. -/
def inside (c : TrackedConfig ι τ κ E Ans α) : Set ι := {i | Inside (c.calls i)}

/-- The count is the number of the requests inside, and when no request is in progress the drain
    loop ends at once. -/
structure InflightExact (c : TrackedConfig ι τ κ E Ans α) : Prop where
  count : (inside c).encard = c.shared.inflightCount.toNat
  drained : (∀ i, ¬ (c.calls i).Active) → ∀ drainDeadline now rounds,
    drain drainDeadline ((c.shared.inflightCount, now) :: rounds) = some (0, .drained)

/-- The step lets a request in. -/
def Enters (c : TrackedConfig ι τ κ E Ans α) (a : Act ι κ χ) : Prop :=
  ∃ i x k f, a = .step i x ∧ c.calls i = .running k (.op .inflightIncrement f)

/-- The step drops a request that is inside. -/
def Aborts (c : TrackedConfig ι τ κ E Ans α) (a : Act ι κ χ) : Prop :=
  ∃ i, a = .drop i ∧ i ∈ inside c

/-- No request inside is dropped, and none enters that the `usize` has no room for. -/
structure Balanced (c : TrackedConfig ι τ κ E Ans α) (a : Act ι κ χ) : Prop where
  kept : ¬ Aborts c a
  room : Enters c a → (inside c).encard + 1 < 2 ^ 64

/-! ## Where a request is -/

/-- Before, inside and past the middleware. -/
inductive Place where
  | outside
  | inside
  | left
  deriving DecidableEq

/-- What a request does at each place. -/
def places : Protocol (Op E) (Op.Ans Ans) Place where
  asks
    | .outside, o => o = .inflightIncrement
    | .inside, o => o ≠ .inflightIncrement
    | .left, _ => False
  answers
    | _, .inflightIncrement, _, g' => g' = .inside
    | _, .inflightDecrement, _, g' => g' = .left
    | g, .inner _, _, g' => g' = g

theorem trackInflight_obeys (next : Prog E Ans α) :
    places.Obeys (fun g _ => g = .left) .outside (trackInflight next) := by
  refine ⟨rfl, ?_⟩
  rintro r g rfl
  have hinner : (places : Protocol (Op E) (Op.Ans Ans) Place).Obeys (fun g _ => g = .inside)
      .inside (next.lift .inner fun _ r => r) := by
    refine Protocol.obeys_of_all (S := fun o => ∃ e, o = .inner e) ?_
      (.lift (Prog.all_of_forall (fun e => ⟨e, rfl⟩) next)) fun _ => rfl
    rintro o ⟨e, rfl⟩
    exact ⟨by simp [places], fun r g' hg' => hg'⟩
  refine hinner.bind ?_
  rintro g response rfl
  refine ⟨by simp [places], ?_⟩
  rintro r g' rfl
  exact rfl

section Runs

variable {D : Pool ι τ κ E Ans α χ} {c c' : TrackedConfig ι τ κ E Ans α} {k : κ}
  {p : Prog (Op E) (Op.Ans Ans) α}

/-- A request that goes on inside the middleware is inside. -/
theorem inside_settle (h : places.Obeys (fun g _ => g = .left) .inside p) :
    Inside (CallState.settle k p) := by
  cases p with
  | ret a => cases h
  | op o f =>
    cases o with
    | inflightIncrement => exact absurd rfl h.1
    | inflightDecrement => trivial
    | inner e => trivial

/-- A request that is past it has returned. -/
theorem not_inside_settle (h : places.Obeys (fun g _ => g = .left) .left p) :
    ¬ Inside (CallState.settle k p) := by
  cases p with
  | ret a => exact id
  | op o f => exact h.1.elim

/-- Every request in progress is at some place. -/
def Placed (c : TrackedConfig ι τ κ E Ans α) : Prop :=
  ∀ i k p, c.calls i = .running k p → ∃ g, places.Obeys (fun g _ => g = .left) g p

theorem placed_drop [DecidableEq ι] (h : Placed c) {i : ι} {s : Shared τ} :
    Placed (⟨s, Function.update c.calls i (.dropped k)⟩ : TrackedConfig ι τ κ E Ans α) := by
  intro j k' p' hj
  have hj : Function.update c.calls i (.dropped k) j = .running k' p' := hj
  by_cases hji : j = i
  · subst hji
    rw [Function.update_self] at hj
    cases hj
  · rw [Function.update_of_ne hji] at hj
    exact h j k' p' hj

theorem placed_update [DecidableEq ι] (h : Placed c) {i : ι} {s : Shared τ} {g : Place}
    (hp : places.Obeys (fun g _ => g = .left) g p) :
    Placed (⟨s, Function.update c.calls i (.settle k p)⟩ : TrackedConfig ι τ κ E Ans α) := by
  intro j k' p' hj
  have hj : Function.update c.calls i (.settle k p) j = .running k' p' := hj
  by_cases hji : j = i
  · subst hji
    rw [Function.update_self] at hj
    cases p with
    | ret a => cases hj
    | op o f =>
      cases hj
      exact ⟨g, hp⟩
  · rw [Function.update_of_ne hji] at hj
    exact h j k' p' hj

theorem not_enters_of_eq {a : Act ι κ χ} (h : ∀ i x, a ≠ .step i x) : ¬ Enters c a := by
  rintro ⟨i, x, k, f, ha, -⟩
  exact h i x ha

theorem not_enters_of_inside {i : ι} {x : χ} (h : Inside (c.calls i)) :
    ¬ Enters c (.step i x : Act ι κ χ) := by
  rintro ⟨j, y, k, f, hj, hf⟩
  cases hj
  rw [hf] at h
  exact h

theorem not_aborts_of_ne {a : Act ι κ χ} (h : ∀ i, a ≠ .drop i) : ¬ Aborts c a := by
  rintro ⟨i, ha, -⟩
  exact h i ha

/-- What a step does to the count and to the number of the requests inside. -/
theorem step_cases [DecidableEq ι] (h : Placed c) {a : Act ι κ χ}
    (hs : (tracked D).machine.step c a = some c') :
    Placed c' ∧
      ((Enters c a ∧ ¬ Aborts c a ∧ c'.shared.inflightCount = c.shared.inflightCount + 1 ∧
          (inside c').encard = (inside c).encard + 1) ∨
        (¬ Enters c a ∧ ¬ Aborts c a ∧
          c'.shared.inflightCount = c.shared.inflightCount - 1 ∧
          (inside c).encard = (inside c').encard + 1) ∨
        (Aborts c a ∧ c'.shared.inflightCount = c.shared.inflightCount ∧
          (inside c).encard = (inside c').encard + 1) ∨
        (¬ Enters c a ∧ ¬ Aborts c a ∧ c'.shared.inflightCount = c.shared.inflightCount ∧
          (inside c').encard = (inside c).encard)) := by
  rcases Pool.act_cases hs with ⟨i, k, s, rfl, hi, hstart, rfl⟩ |
    ⟨i, x, k, o, f, s, r, rfl, hi, hhandle, rfl⟩ | ⟨i, k, p, s, rfl, hi, hdrop, rfl⟩ |
    ⟨x, s, rfl, henv, rfl⟩
  · obtain ⟨rest, -, rfl⟩ := Option.map_eq_some_iff.mp hstart
    refine ⟨placed_update h (trackInflight_obeys _), Or.inr (Or.inr (Or.inr
      ⟨not_enters_of_eq (by simp), not_aborts_of_ne (by simp), rfl,
        congrArg Set.encard (Pool.encard_update_same ?_)⟩))⟩
    rw [hi]
    exact Iff.rfl
  · obtain ⟨g, hasks, hnext⟩ := h i k _ hi
    have hkept : ¬ Aborts c (.step i x) := not_aborts_of_ne (by simp)
    cases o with
    | inflightIncrement =>
      cases hhandle
      have hrest := hnext () _ rfl
      refine ⟨placed_update h hrest, Or.inl ⟨⟨i, x, k, f, rfl, hi⟩, hkept, rfl, ?_⟩⟩
      exact Pool.encard_update_gain (by rw [hi]; exact id) (inside_settle hrest)
    | inflightDecrement =>
      cases hhandle
      have hrest := hnext () .left rfl
      have hin : Inside (c.calls i) := by
        rw [hi]
        trivial
      refine ⟨placed_update h hrest,
        Or.inr (Or.inl ⟨not_enters_of_inside hin, hkept, rfl, ?_⟩)⟩
      exact Pool.encard_update_loss hin (not_inside_settle hrest)
    | inner e =>
      obtain ⟨t, -, heq⟩ := Option.map_eq_some_iff.mp hhandle
      cases heq
      have hin : Inside (c.calls i) := by
        rw [hi]
        trivial
      have hg : g = .inside := by
        cases g with
        | outside => cases hasks
        | inside => rfl
        | left => exact hasks.elim
      subst hg
      have hrest := hnext t.2 .inside rfl
      exact ⟨placed_update h hrest, Or.inr (Or.inr (Or.inr ⟨not_enters_of_inside hin, hkept, rfl,
        congrArg Set.encard (Pool.encard_update_same (iff_of_true (inside_settle hrest) hin))⟩))⟩
  · obtain ⟨rest, -, rfl⟩ := Option.map_eq_some_iff.mp hdrop
    refine ⟨placed_drop h, ?_⟩
    by_cases hinside : i ∈ inside c
    · exact Or.inr (Or.inr (Or.inl
        ⟨⟨i, rfl, hinside⟩, rfl, Pool.encard_update_loss hinside id⟩))
    · refine Or.inr (Or.inr (Or.inr ⟨not_enters_of_eq (by simp), ?_, rfl,
        congrArg Set.encard (Pool.encard_update_same (iff_of_false id hinside))⟩))
      rintro ⟨j, hj, hin⟩
      cases hj
      exact hinside hin
  · obtain ⟨rest, -, rfl⟩ := Option.map_eq_some_iff.mp henv
    exact ⟨h, Or.inr (Or.inr (Or.inr
      ⟨not_enters_of_eq (by simp), not_aborts_of_ne (by simp), rfl, rfl⟩))⟩

/-- When no request is in progress, none is inside. -/
theorem inside_of_quiet (hquiet : ∀ i, ¬ (c.calls i).Active) : inside c = ∅ := by
  refine Set.eq_empty_iff_forall_notMem.mpr fun i hi => hquiet i ?_
  have hi : Inside (c.calls i) := hi
  cases hc : c.calls i with
  | running k p => trivial
  | idle => rw [hc] at hi; exact hi
  | returned k a => rw [hc] at hi; exact hi
  | dropped k => rw [hc] at hi; exact hi

theorem inflightExact_of_count (h : (inside c).encard = c.shared.inflightCount.toNat) :
    InflightExact c := by
  refine ⟨h, fun hquiet drainDeadline now rounds => ?_⟩
  rw [inside_of_quiet hquiet, Set.encard_empty] at h
  have hzero : c.shared.inflightCount = 0 := by
    rw [← UInt64.toNat_inj]
    exact_mod_cast h.symm
  unfold drain
  rw [if_pos hzero]

/-- What an increment does to a count that has room. -/
theorem count_plus {n m : UInt64} {s : ℕ∞} (hs : s = n.toNat + 1) (hm : m = n + 1)
    (hroom : (n.toNat : ℕ∞) + 1 < 2 ^ 64) : s = m.toNat := by
  have hlt : n.toNat + 1 < 2 ^ 64 := by exact_mod_cast hroom
  rw [hs, hm, UInt64.toNat_add, UInt64.toNat_one, Nat.mod_eq_of_lt hlt]
  rfl

/-- What a decrement does to a count that is not 0. -/
theorem count_minus {n m : UInt64} {s : ℕ∞} (hs : (n.toNat : ℕ∞) = s + 1) (hm : m = n - 1) :
    s = m.toNat := by
  have hfin : s ≠ ⊤ := by
    rintro rfl
    exact absurd hs (ENat.natCast_ne_top _)
  lift s to ℕ using hfin
  have hn : n.toNat = s + 1 := by exact_mod_cast hs
  have hle : (1 : UInt64) ≤ n := by
    rw [UInt64.le_iff_toNat_le, UInt64.toNat_one]
    omega
  rw [hm, UInt64.toNat_sub_of_le _ _ hle, UInt64.toNat_one, hn]
  rfl

variable [DecidableEq ι]

/-- The count is the number of the requests inside in every state of a run exactly when no
    request inside is dropped and none enters that the `usize` has no room for. -/
theorem inflight_iff (D : Pool ι τ κ E Ans α χ) (init c : TrackedConfig ι τ κ E Ans α)
    (acts : List (Act ι κ χ)) (hinit : (tracked D).machine.init init)
    (hrun : (tracked D).machine.run init acts = some c) :
    (tracked D).machine.Along InflightExact init acts ↔
      (tracked D).machine.Meets Balanced init acts := by
  have hstart : (inside init).encard = init.shared.inflightCount.toNat ∧ Placed init := by
    obtain ⟨⟨hzero, -⟩, hidle⟩ := hinit
    refine ⟨?_, fun i k p hi => ?_⟩
    · have hnone : inside init = ∅ := inside_of_quiet fun i => by rw [hidle i]; exact id
      rw [hnone, Set.encard_empty, hzero]
      rfl
    · rw [hidle i] at hi
      cases hi
  refine Machine.along_iff_meets (I := fun c : TrackedConfig ι τ κ E Ans α =>
    (inside c).encard = c.shared.inflightCount.toNat ∧ Placed c) ?_
    (fun c hc => inflightExact_of_count hc.1) ?_ hstart hrun
  · rintro c a c' ⟨hcount, hplaced⟩ hbalanced hs
    obtain ⟨hplaced', hcases⟩ := step_cases hplaced hs
    refine ⟨?_, hplaced'⟩
    rcases hcases with ⟨henters, -, hplus, hmore⟩ | ⟨-, -, hminus, hless⟩ | ⟨haborts, -⟩ |
      ⟨-, -, hsame, hinside⟩
    · have hroom := hbalanced.room henters
      rw [hcount] at hroom hmore
      exact count_plus hmore hplus hroom
    · rw [hcount] at hless
      exact count_minus hless hminus
    · exact absurd haborts hbalanced.kept
    · rw [hinside, hsame]
      exact hcount
  · rintro c a c' ⟨hcount, hplaced⟩ hbad hs hexact
    obtain ⟨-, hcases⟩ := step_cases hplaced hs
    have hcount' := hexact.count
    rcases hcases with ⟨-, hkept, -, hmore⟩ | ⟨henters, hkept, -⟩ | ⟨-, hsame, hless⟩ |
      ⟨henters, hkept, -⟩
    · -- A count that has gone round is not the number of the requests inside.
      refine hbad ⟨hkept, fun _ => ?_⟩
      rw [← hmore, hcount']
      exact_mod_cast UInt64.toNat_lt _
    · exact hbad ⟨hkept, fun h => absurd h henters⟩
    · rw [hcount, hcount', hsame] at hless
      exact absurd (by exact_mod_cast hless) (Nat.succ_ne_self _).symm
    · exact hbad ⟨hkept, fun h => absurd h henters⟩

end Runs

/-! ## A request that its client gives up -/

/-- A drain loop that never reads 0 goes on until the deadline. -/
theorem drain_forced {drainDeadline : ℕ} {rounds : List (UInt64 × ℕ)} {n : ℕ} {e : DrainEnd}
    (hcounted : ∀ r ∈ rounds, r.1 ≠ 0) (h : drain drainDeadline rounds = some (n, e)) :
    ∃ r ∈ rounds, e = .forced r.1 ∧ drainDeadline ≤ r.2 := by
  induction rounds generalizing n with
  | nil => cases h
  | cons r rounds ih =>
    unfold drain at h
    rw [if_neg (hcounted r List.mem_cons_self)] at h
    by_cases hnow : r.2 ≥ drainDeadline
    · rw [if_pos hnow] at h
      cases h
      exact ⟨r, List.mem_cons_self, rfl, hnow⟩
    · rw [if_neg hnow] at h
      obtain ⟨⟨m, e'⟩, hrest, heq⟩ := Option.map_eq_some_iff.mp h
      cases heq
      obtain ⟨r', hr', hforced⟩ := ih (fun q hq => hcounted q (List.mem_cons_of_mem _ hq)) hrest
      exact ⟨r', List.mem_cons_of_mem _ hr', hforced⟩

/-- A service that awaits one thing. -/
def oneAwait (ι : Type) : Pool ι Unit Unit Unit (fun _ => Unit) Unit Unit where
  init _ := True
  prog _ := Prog.perform ()
  start s _ _ := some s
  handle s _ _ _ := some (s, ())
  drop s _ := some s
  env s _ := some s

/-- Before the requests. -/
def quiet (ι : Type) : TrackedConfig ι Unit Unit Unit (fun _ => Unit) Unit :=
  ⟨⟨0, ()⟩, fun _ => .idle⟩

/-- The client disconnects while the service awaits: no request is in progress any more, the
    count stays 1, and the drain loop, which reads nothing else, runs into its deadline. -/
theorem abortedRequest_counted :
    ∃ c, (tracked (oneAwait Unit)).machine.run (quiet Unit)
        [.start () (), .step () (), .drop ()] = some c ∧
      (∀ i, ¬ (c.calls i).Active) ∧ c.shared.inflightCount = 1 ∧ ¬ InflightExact c ∧
      ∀ drainDeadline rounds n e, (∀ r ∈ rounds, r.1 = c.shared.inflightCount) →
        drain drainDeadline rounds = some (n, e) →
          e = .forced 1 ∧ ∃ r ∈ rounds, drainDeadline ≤ r.2 := by
  refine ⟨_, rfl, fun i => id, rfl, fun hexact => ?_, ?_⟩
  · have hends := hexact.drained (fun i => id) 0 0 []
    exact absurd hends (by decide)
  · intro drainDeadline rounds n e hread hdrain
    obtain ⟨r, hr, rfl, hdeadline⟩ := drain_forced (fun q hq => by rw [hread q hq]; decide) hdrain
    exact ⟨congrArg DrainEnd.forced (hread r hr), r, hr, hdeadline⟩

/-- Two requests enter. -/
def bothEnter : List (Act Bool Unit Unit) :=
  [.start true (), .start false (), .step true (), .step false ()]

/-- The one that entered last is served first. -/
def bothServed : List (Act Bool Unit Unit) :=
  bothEnter ++ [.step false (), .step true (), .step false (), .step true ()]

/-- Two requests that are served to their ends are counted in and out. -/
theorem bothServed_balanced :
    ((tracked (oneAwait Bool)).machine.run (quiet Bool) bothEnter).map
        (fun c => c.shared.inflightCount) = some 2 ∧
      ((tracked (oneAwait Bool)).machine.run (quiet Bool) bothServed).map (fun c =>
        (c.shared.inflightCount, decide (∀ i, ¬ (c.calls i).Active))) = some (0, true) ∧
      (tracked (oneAwait Bool)).machine.Along InflightExact (quiet Bool) bothServed := by
  have hview : ((tracked (oneAwait Bool)).machine.run (quiet Bool) bothServed).map (fun c =>
      (c.shared.inflightCount, decide (∀ i, ¬ (c.calls i).Active))) = some (0, true) := by
    decide +kernel
  obtain ⟨c, hrun, -⟩ := Option.map_eq_some_iff.mp hview
  refine ⟨by decide +kernel, hview,
    (inflight_iff (oneAwait Bool) (quiet Bool) c _ ⟨⟨rfl, trivial⟩, fun i => rfl⟩ hrun).mpr ?_⟩
  have hlabels : ∀ a ∈ bothServed, ∀ i, a ≠ .drop i := by simp [bothServed, bothEnter]
  refine (Machine.meets_of_labels hlabels (quiet Bool)).mono fun c a ha =>
    ⟨not_aborts_of_ne ha, fun _ => ?_⟩
  have htwo : (inside c).encard ≤ 2 := by
    refine (Set.encard_le_encard (Set.subset_univ _)).trans ?_
    rw [Set.encard_univ, ENat.card_eq_coe_fintype_card, Fintype.card_bool]
    rfl
  calc (inside c).encard + 1 ≤ 2 + 1 := add_le_add_left htwo 1
    _ < 2 ^ 64 := by norm_num

end SocialApi.Inflight
