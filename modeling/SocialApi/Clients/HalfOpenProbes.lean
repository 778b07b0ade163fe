import SocialApi.Clients.BreakerHistory
import SocialApi.Concurrent.Pool

/-!
# Probes and late outcomes

Clients call `allow_request`, make their remote call if they are admitted, and then
record its outcome. An outcome carries no identity: a request that was admitted in
`Closed` and succeeds during a later `HalfOpen` gives back the slot of a probe it is
not, and counts as one of its successes.

* `probesCount_of_meets`: as long as no such success is recorded in `HalfOpen`, one
  probe at a time is unresolved, and only probes close the breaker.
* `lateSuccesses_close`: a run in which two late successes close the breaker while two
  probes are unresolved.
-/

namespace SocialApi.Clients

open SocialApi.Concurrent

/-! ## The clients -/

/-- The operations of a client. -/
inductive ClientOp where
  | allowRequest
  /-- The remote call. -/
  | remote
  | recordSuccess
  | recordFailure
  deriving DecidableEq, Repr

@[reducible] def ClientOp.Ans : ClientOp → Type
  | allowRequest => Bool
  | remote => Bool
  | recordSuccess => Unit
  | recordFailure => Unit

/-- Clock readings, or whether the remote call succeeds. -/
inductive ClientChoice where
  | clock (now now' : Instant)
  | remote (ok : Bool)

/-- One operation of a client. -/
def perform (o : ClientOp) : Prog ClientOp ClientOp.Ans o.Ans := Prog.perform o

/-- One request. -/
def client : Prog ClientOp ClientOp.Ans Unit := do
  if ← perform .allowRequest then
    if ← perform .remote then perform .recordSuccess
    else perform .recordFailure
  else return ()

/-- A breaker shared by clients. All but `inner` is history that no outcome depends on. -/
structure Shared (ι : Type) where
  inner : Inner
  /-- How often `HalfOpen` has been entered. -/
  entered : ℕ
  /-- The `HalfOpen` in which a request was admitted. -/
  admittedIn : ι → Option ℕ
  /-- How many requests admitted in the last `HalfOpen` have recorded a success in it. -/
  succeeded : ℕ
  /-- `succeeded`, each time the breaker closed. -/
  closings : List ℕ

variable {ι : Type}

/-- The breaker has gone from one of its states to another. -/
def Shared.entering (s : Shared ι) (inner : Inner) (state : CircuitState) : Bool :=
  decide (s.inner.state ≠ state) && decide (inner.state = state)

/-- What one operation of client `i` does. -/
def Shared.handle [DecidableEq ι] (config : CircuitBreakerConfig) (s : Shared ι) (i : ι) :
    (o : ClientOp) → ClientChoice → Option (Shared ι × o.Ans)
  | .allowRequest, .clock now _ =>
    let (inner, allowed) := CircuitBreaker.allowRequest config now s.inner
    let entered := if s.entering inner .halfOpen then s.entered + 1 else s.entered
    some ({ s with
      inner := inner
      entered := entered
      admittedIn :=
        if allowed ∧ inner.state = .halfOpen then Function.update s.admittedIn i (some entered)
        else s.admittedIn
      succeeded := if s.entering inner .halfOpen then 0 else s.succeeded }, allowed)
  | .remote, .remote ok => some (s, ok)
  | .recordSuccess, .clock now _ =>
    let inner := CircuitBreaker.recordSuccess config now s.inner
    let succeeded :=
      if s.inner.state = .halfOpen ∧ s.admittedIn i = some s.entered then s.succeeded + 1
      else s.succeeded
    some ({ s with
      inner := inner
      succeeded := succeeded
      closings := if s.entering inner .closed then succeeded :: s.closings else s.closings }, ())
  | .recordFailure, .clock now now' =>
    let inner := CircuitBreaker.recordFailure config now now' s.inner
    some ({ s with
      inner := inner
      closings := if s.entering inner .closed then s.succeeded :: s.closings else s.closings }, ())
  | _, _ => none

/-- Any number of clients of a new breaker. Every admitted client records an outcome, however
    late. -/
def clients [DecidableEq ι] (config : CircuitBreakerConfig) :
    Pool ι (Shared ι) Unit ClientOp ClientOp.Ans Unit ClientChoice where
  init s := s = ⟨CircuitBreaker.new, 0, fun _ => none, 0, []⟩
  prog _ := client
  start s i _ := some { s with admittedIn := Function.update s.admittedIn i none }
  handle := Shared.handle config
  drop _ _ := none
  env _ _ := none

/-- A configuration of clients. -/
abbrev ClientsConfig (ι : Type) := Configuration ι (Shared ι) Unit ClientOp ClientOp.Ans Unit

/-- The request has an operation to perform. -/
def ahead : CallState Unit ClientOp ClientOp.Ans Unit → Bool
  | .running _ (.op _ _) => true
  | _ => false

/-- Request `i` was admitted in the last `HalfOpen` and has still to record its outcome. -/
def Unresolved (c : ClientsConfig ι) (i : ι) : Prop :=
  ahead (c.calls i) = true ∧ c.shared.admittedIn i = some c.shared.entered

/-- One probe at a time is unresolved, and the breaker has closed only after enough successful
    probes. -/
structure ProbesCount (config : CircuitBreakerConfig) (c : ClientsConfig ι) : Prop where
  one : ∀ i j, Unresolved c i → Unresolved c j → i = j
  closed : ∀ n ∈ c.shared.closings, config.successThreshold ≤ n

/-- A success recorded in `HalfOpen` is that of a request admitted in it. -/
def NoLateSuccess (c : ClientsConfig ι) (a : Act ι Unit ClientChoice) : Prop :=
  ∀ i x f, a = .step i x → c.calls i = .running () (.op .recordSuccess f) →
    c.shared.inner.state = .halfOpen → c.shared.admittedIn i = some c.shared.entered

/-! ## The order of a client's operations -/

/-- How far a client is. -/
inductive Stage where
  | fresh
  | admitted
  | done
  deriving DecidableEq, Repr

/-- What a client does next at each stage. -/
def stages : Protocol ClientOp ClientOp.Ans Stage where
  asks
    | .fresh, .allowRequest => True
    | .admitted, .remote => True
    | .admitted, .recordSuccess => True
    | .admitted, .recordFailure => True
    | _, _ => False
  answers _ o r g' :=
    match o with
    | .allowRequest => g' = if r then .admitted else .done
    | .remote => g' = .admitted
    | _ => g' = .done

theorem client_obeys : stages.Obeys (fun g _ => g = .done) .fresh client := by
  refine ⟨trivial, ?_⟩
  intro allowed g hg
  cases allowed with
  | false => exact hg
  | true =>
    subst hg
    refine ⟨trivial, ?_⟩
    intro ok g hg
    subst hg
    cases ok
    · exact ⟨trivial, fun _ _ h => h⟩
    · exact ⟨trivial, fun _ _ h => h⟩

/-! ## The invariant -/

/-- What is known of the breaker, its history and the clients. -/
structure ProbeInv (config : CircuitBreakerConfig) (s : Shared ι) (γ : ι → Option Stage) :
    Prop where
  past : ∀ i n, s.admittedIn i = some n → n ≤ s.entered
  fresh : ∀ i, γ i = some .fresh → s.admittedIn i = none
  one : ∀ i j, γ i = some .admitted → γ j = some .admitted →
    s.admittedIn i = some s.entered → s.admittedIn j = some s.entered → i = j
  free : s.inner.state = .halfOpen → s.inner.probeInFlight = false →
    ∀ i, γ i = some .admitted → s.admittedIn i ≠ some s.entered
  count : s.inner.state = .halfOpen → s.inner.consecutiveSuccesses ≤ s.succeeded
  closed : ∀ n ∈ s.closings, config.successThreshold ≤ n

variable {config : CircuitBreakerConfig} {s : Shared ι} {γ : ι → Option Stage} {i : ι}

theorem probeInv_new :
    ProbeInv config (⟨CircuitBreaker.new, 0, fun _ => none, 0, []⟩ : Shared ι) fun _ => none where
  past _ _ h := by cases h
  fresh _ h := by cases h
  one _ _ h := by cases h
  free h := by cases h
  count h := by cases h
  closed _ h := by cases h

variable [DecidableEq ι]

/-- Whose stage is `admitted` after the stage of `i` has changed. -/
theorem admitted_update {γ' : Option Stage} {j : ι} (hγ' : γ' ≠ some .admitted)
    (h : Function.update γ i γ' j = some .admitted) : j ≠ i ∧ γ j = some .admitted := by
  by_cases hj : j = i
  · subst hj
    rw [Function.update_self] at h
    exact absurd h hγ'
  · rw [Function.update_of_ne hj] at h
    exact ⟨hj, h⟩

theorem fresh_update {γ' : Option Stage} {j : ι} (hγ' : γ' ≠ some .fresh)
    (h : Function.update γ i γ' j = some .fresh) : j ≠ i ∧ γ j = some .fresh := by
  by_cases hj : j = i
  · subst hj
    rw [Function.update_self] at h
    exact absurd h hγ'
  · rw [Function.update_of_ne hj] at h
    exact ⟨hj, h⟩

/-- A request that starts has not been admitted. -/
theorem ProbeInv.start (h : ProbeInv config s γ) :
    ProbeInv config { s with admittedIn := Function.update s.admittedIn i none }
      (Function.update γ i (some .fresh)) where
  past j n hj := by
    have hj : Function.update s.admittedIn i none j = some n := hj
    by_cases hji : j = i
    · rw [hji, Function.update_self] at hj; cases hj
    · rw [Function.update_of_ne hji] at hj; exact h.past j n hj
  fresh j hj := by
    show Function.update s.admittedIn i none j = none
    by_cases hji : j = i
    · rw [hji, Function.update_self]
    · rw [Function.update_of_ne hji] at hj ⊢; exact h.fresh j hj
  one j k hj hk hjn hkn := by
    obtain ⟨hji, hj⟩ := admitted_update (by simp) hj
    obtain ⟨hki, hk⟩ := admitted_update (by simp) hk
    have hjn : Function.update s.admittedIn i none j = some s.entered := hjn
    have hkn : Function.update s.admittedIn i none k = some s.entered := hkn
    rw [Function.update_of_ne hji] at hjn
    rw [Function.update_of_ne hki] at hkn
    exact h.one j k hj hk hjn hkn
  free hs hp j hj := by
    obtain ⟨hji, hj⟩ := admitted_update (by simp) hj
    show Function.update s.admittedIn i none j ≠ _
    rw [Function.update_of_ne hji]
    exact h.free hs hp j hj
  count := h.count
  closed := h.closed

/-- A request that is not admitted, or has recorded its outcome, leaves the rest as it is
    when the breaker is not left in `HalfOpen` with a free slot. -/
theorem ProbeInv.leave (h : ProbeInv config s γ) {γ' : Option Stage}
    (hγ' : γ' = none ∨ γ' = some .done) {inner : Inner} {succeeded : ℕ} {closings : List ℕ}
    (hfree : inner.state = .halfOpen → inner.probeInFlight = false →
      ∀ j, j ≠ i → γ j = some .admitted → s.admittedIn j ≠ some s.entered)
    (hcount : inner.state = .halfOpen → inner.consecutiveSuccesses ≤ succeeded)
    (hclosed : ∀ n ∈ closings, config.successThreshold ≤ n) :
    ProbeInv config { s with inner := inner, succeeded := succeeded, closings := closings }
      (Function.update γ i γ') where
  past := h.past
  fresh j hj := h.fresh j (fresh_update (by rcases hγ' with rfl | rfl <;> simp) hj).2
  one j k hj hk := by
    have hne : γ' ≠ some .admitted := by rcases hγ' with rfl | rfl <;> simp
    exact h.one j k (admitted_update hne hj).2 (admitted_update hne hk).2
  free hs hp j hj := by
    obtain ⟨hji, hj⟩ := admitted_update (by rcases hγ' with rfl | rfl <;> simp) hj
    exact hfree hs hp j hji hj
  count := hcount
  closed := hclosed

/-- A request is rejected, or admitted by a closed breaker. -/
theorem ProbeInv.pass (h : ProbeInv config s γ) (hγ : γ i = some .fresh) (stage : Stage)
    (hstage : stage ≠ .fresh) : ProbeInv config s (Function.update γ i (some stage)) := by
  have hnone := h.fresh i hγ
  have htagged : ∀ j, Function.update γ i (some stage) j = some .admitted →
      s.admittedIn j = some s.entered → γ j = some .admitted := by
    intro j hj hjn
    by_cases hji : j = i
    · rw [hji, hnone] at hjn
      cases hjn
    · rwa [Function.update_of_ne hji] at hj
  refine ⟨h.past, fun j hj => ?_, fun j k hj hk hjn hkn => ?_, fun hs hp j hj hjn => ?_, h.count,
    h.closed⟩
  · exact h.fresh j (fresh_update (by simpa using hstage) hj).2
  · exact h.one j k (htagged j hj hjn) (htagged k hk hkn) hjn hkn
  · exact h.free hs hp j (htagged j hj hjn) hjn

/-- The slot of a breaker that is in `HalfOpen` already. -/
theorem ProbeInv.probe (h : ProbeInv config s γ) (hs : s.inner.state = .halfOpen)
    (hp : s.inner.probeInFlight = false) {inner : Inner} (htaken : inner.probeInFlight = true)
    (hn : inner.consecutiveSuccesses = s.inner.consecutiveSuccesses) :
    ProbeInv config
      { s with inner := inner,
               admittedIn := Function.update s.admittedIn i (some s.entered) }
      (Function.update γ i (some .admitted)) := by
  have hone : ∀ j, Function.update γ i (some Stage.admitted) j = some .admitted →
      Function.update s.admittedIn i (some s.entered) j = some s.entered → j = i := by
    intro j hj hjn
    by_contra hji
    rw [Function.update_of_ne hji] at hj hjn
    exact h.free hs hp j hj hjn
  refine ⟨fun j n hj => ?_, fun j hj => ?_, fun j k hj hk hjn hkn => ?_,
    fun _ hfree => ?_, fun _ => hn.le.trans (h.count hs), h.closed⟩
  · have hj : Function.update s.admittedIn i (some s.entered) j = some n := hj
    by_cases hji : j = i
    · rw [hji, Function.update_self] at hj
      exact (Option.some.inj hj).ge
    · rw [Function.update_of_ne hji] at hj
      exact h.past j n hj
  · obtain ⟨hji, hj⟩ := fresh_update (by simp) hj
    show Function.update s.admittedIn i _ j = none
    rw [Function.update_of_ne hji]
    exact h.fresh j hj
  · rw [hone j hj hjn, hone k hk hkn]
  · rw [show inner.probeInFlight = false from hfree] at htaken
    cases htaken

/-- The request that takes the breaker to `HalfOpen`: all others were admitted before. -/
theorem ProbeInv.enter (h : ProbeInv config s γ) {inner : Inner} (hp : inner.probeInFlight = true)
    (hn : inner.consecutiveSuccesses = 0) :
    ProbeInv config
      { s with inner := inner, entered := s.entered + 1,
               admittedIn := Function.update s.admittedIn i (some (s.entered + 1)),
               succeeded := 0 }
      (Function.update γ i (some .admitted)) := by
  have hone : ∀ j, Function.update s.admittedIn i (some (s.entered + 1)) j = some (s.entered + 1) →
      j = i := by
    intro j hjn
    by_contra hji
    rw [Function.update_of_ne hji] at hjn
    have hle := h.past j _ hjn
    omega
  refine ⟨fun j n hj => ?_, fun j hj => ?_, fun j k _ _ hjn hkn => ?_, fun _ hfree => ?_,
    fun _ => hn.le, h.closed⟩
  · have hj : Function.update s.admittedIn i (some (s.entered + 1)) j = some n := hj
    show n ≤ s.entered + 1
    by_cases hji : j = i
    · rw [hji, Function.update_self] at hj
      exact (Option.some.inj hj).ge
    · rw [Function.update_of_ne hji] at hj
      exact (h.past j n hj).trans (Nat.le_succ _)
  · obtain ⟨hji, hj⟩ := fresh_update (by simp) hj
    show Function.update s.admittedIn i _ j = none
    rw [Function.update_of_ne hji]
    exact h.fresh j hj
  · rw [hone j hjn, hone k hkn]
  · rw [show inner.probeInFlight = false from hfree] at hp
    cases hp

/-- `allow_request` of a client that has not been admitted. -/
theorem ProbeInv.allowRequest (h : ProbeInv config s γ) (hγ : γ i = some .fresh) {now now' : Instant}
    {s' : Shared ι} {r : Bool}
    (hs : s.handle config i .allowRequest (.clock now now') = some (s', r)) :
    ProbeInv config s' (Function.update γ i (some (if r then .admitted else .done))) := by
  cases hst : s.inner.state with
  | closed =>
    have hallow : CircuitBreaker.allowRequest config now s.inner = (s.inner, true) :=
      CircuitBreaker.allowRequest_of_closed hst
    simp only [Shared.handle, hallow, Shared.entering, hst] at hs
    cases hs
    exact h.pass hγ _ (by simp)
  | halfOpen =>
    cases hp : s.inner.probeInFlight with
    | false =>
      have hallow : CircuitBreaker.allowRequest config now s.inner =
          ({ s.inner with probeInFlight := true }, true) :=
        CircuitBreaker.allowRequest_of_probe hst hp
      simp only [Shared.handle, hallow, Shared.entering, hst] at hs
      cases hs
      exact h.probe hst hp rfl rfl
    | true =>
      have hallow : CircuitBreaker.allowRequest config now s.inner = (s.inner, false) :=
        CircuitBreaker.allowRequest_of_taken hst hp
      simp only [Shared.handle, hallow, Shared.entering, hst] at hs
      cases hs
      exact h.pass hγ _ (by simp)
  | opened =>
    cases hr : CircuitBreaker.recoveryElapsed config now s.inner with
    | true =>
      have hallow : CircuitBreaker.allowRequest config now s.inner =
          ({ s.inner with state := .halfOpen, consecutiveSuccesses := 0, probeInFlight := true },
            true) := CircuitBreaker.allowRequest_of_recovered hst hr
      simp only [Shared.handle, hallow, Shared.entering, hst] at hs
      cases hs
      exact h.enter rfl rfl
    | false =>
      have hallow : CircuitBreaker.allowRequest config now s.inner = (s.inner, false) :=
        CircuitBreaker.allowRequest_of_opened hst hr
      simp only [Shared.handle, hallow, Shared.entering, hst] at hs
      cases hs
      exact h.pass hγ _ (by simp)

/-- `record_success` of an admitted client, which is a probe if the breaker is in `HalfOpen`. -/
theorem ProbeInv.recordSuccess (h : ProbeInv config s γ) (hγ : γ i = some .admitted)
    (hprobe : s.inner.state = .halfOpen → s.admittedIn i = some s.entered) {now now' : Instant}
    {s' : Shared ι} (hs : s.handle config i .recordSuccess (.clock now now') = some (s', ())) :
    ProbeInv config s' (Function.update γ i (some .done)) := by
  cases hst : s.inner.state with
  | closed =>
    have hrec : CircuitBreaker.recordSuccess config now s.inner = _ :=
      CircuitBreaker.recordSuccess_of_closed hst
    simp only [Shared.handle, hrec, Shared.entering, hst] at hs
    cases hs
    exact h.leave (Or.inr rfl) nofun nofun h.closed
  | halfOpen =>
    have hi := hprobe hst
    have hcount := h.count hst
    by_cases hlast : config.successThreshold ≤ s.inner.consecutiveSuccesses + 1
    · have hrec : CircuitBreaker.recordSuccess config now s.inner = _ :=
        CircuitBreaker.recordSuccess_of_last hst hlast
      simp only [Shared.handle, hrec, Shared.entering, hst, hi] at hs
      cases hs
      refine h.leave (Or.inr rfl) nofun nofun fun n hn => ?_
      rcases List.mem_cons.mp hn with rfl | hn
      · show config.successThreshold ≤ s.succeeded + 1
        omega
      · exact h.closed n hn
    · have hrec : CircuitBreaker.recordSuccess config now s.inner = _ :=
        CircuitBreaker.recordSuccess_of_halfOpen hst (not_le.mp hlast)
      simp only [Shared.handle, hrec, Shared.entering, hst, hi] at hs
      cases hs
      refine h.leave (Or.inr rfl) (fun _ _ j hji hj hjn => ?_) (fun _ => ?_) h.closed
      · exact hji (h.one j i hj hγ hjn hi)
      · exact Nat.succ_le_succ hcount
  | opened =>
    have hrec : CircuitBreaker.recordSuccess config now s.inner = _ :=
      CircuitBreaker.recordSuccess_of_opened hst
    simp only [Shared.handle, hrec, Shared.entering, hst] at hs
    cases hs
    exact h.leave (Or.inr rfl) nofun nofun h.closed

/-- `record_failure` of an admitted client. -/
theorem ProbeInv.recordFailure (h : ProbeInv config s γ) {now now' : Instant}
    {s' : Shared ι} (hs : s.handle config i .recordFailure (.clock now now') = some (s', ())) :
    ProbeInv config s' (Function.update γ i (some .done)) := by
  have hstate := (CircuitBreaker.recordFailure_state config now now' s.inner).2.2
  have hne : (CircuitBreaker.recordFailure config now now' s.inner).state ≠ .halfOpen := by
    rcases hstate with hstate | hstate <;> simp [hstate]
  have hentering : s.entering (CircuitBreaker.recordFailure config now now' s.inner) .closed =
      false := by
    unfold Shared.entering
    cases hst : s.inner.state with
    | closed => rfl
    | halfOpen => rw [CircuitBreaker.recordFailure_of_halfOpen hst]; rfl
    | opened => rw [CircuitBreaker.recordFailure_of_opened hst, hst]; rfl
  simp only [Shared.handle, hentering] at hs
  cases hs
  exact h.leave (Or.inr rfl) (fun hs => absurd hs hne) (fun hs => absurd hs hne) h.closed

/-! ## All runs -/

theorem clients_sound (config : CircuitBreakerConfig) :
    Pool.Sound (clients (ι := ι) config) stages (fun _ g _ => g = .done) (fun _ => .fresh)
      (ProbeInv config) NoLateSuccess where
  init s hs := by
    rw [show s = _ from hs]
    exact probeInv_new
  prog _ := client_obeys
  start c i k s γ _ h _ hs := by
    cases hs
    exact h.start
  handle c i x k o f s r γ g hguard h hF hi hγ hask hs := by
    have hs : c.shared.handle config i o x = some (s, r) := hs
    cases o with
    | allowRequest =>
      cases x with
      | clock now now' =>
        cases g with
        | fresh => exact ⟨_, rfl, h.allowRequest hγ hs⟩
        | _ => exact hask.elim
      | remote ok => cases hs
    | remote =>
      cases x with
      | clock now now' => cases hs
      | remote ok =>
        cases g with
        | admitted => cases hs; exact ⟨_, rfl, by rw [← hγ, Function.update_eq_self]; exact h⟩
        | _ => exact hask.elim
    | recordSuccess =>
      cases x with
      | clock now now' =>
        cases g with
        | admitted => exact ⟨_, rfl, h.recordSuccess hγ (hguard i _ f rfl hi) hs⟩
        | _ => exact hask.elim
      | remote ok => cases hs
    | recordFailure =>
      cases x with
      | clock now now' => exact ⟨_, rfl, h.recordFailure hs⟩
      | remote ok => cases hs
  ret s i k γ g a h hγ hdone := by
    refine h.leave (Or.inl rfl) (fun hs hp j _ hj => h.free hs hp j hj) h.count h.closed
  drop c i k p s γ g _ _ _ _ _ hs := by cases hs
  env c x s γ _ _ hs := by cases hs

/-- As long as no request that was admitted earlier records a success in `HalfOpen`, at most
    one request admitted in the last `HalfOpen` is unresolved, and the breaker closes only
    after `success_threshold` of them have succeeded. -/
theorem probesCount_of_meets (config : CircuitBreakerConfig) {c : ClientsConfig ι}
    {as : List (Act ι Unit ClientChoice)} (hc : (clients config).machine.init c)
    (hmeets : (clients config).machine.Meets NoLateSuccess c as) :
    (clients config).machine.Along (ProbesCount config) c as := by
  have S := clients_sound (ι := ι) config
  have halong := Machine.along_of_meets (fun c a c' => S.inv_step c a c') (S.inv_init hc) hmeets
  refine halong.mono ?_
  rintro c ⟨γ, h, hF⟩
  have hadmitted : ∀ i, Unresolved c i → γ i = some .admitted := by
    rintro i ⟨hahead, hin⟩
    have hFi := hF i
    unfold ahead at hahead
    split at hahead
    · rename_i o f hi
      rw [hi] at hFi
      obtain ⟨g, hγ, hask, -⟩ := hFi
      rw [hγ]
      cases g with
      | admitted => rfl
      | fresh => rw [h.fresh i hγ] at hin; cases hin
      | done => exact hask.elim
    · cases hahead
  exact ⟨fun i j hi hj => h.one i j (hadmitted i hi) (hadmitted j hj) hi.2 hj.2, h.closed⟩

/-! ## Two runs -/

/-- A breaker that one failure opens and two successes close. -/
def twoProbes : CircuitBreakerConfig := { touchy with successThreshold := 2 }

/-- Request `i` starts and asks for admission. -/
def ask (i : ℕ) (now : Instant) : List (Act ℕ Unit ClientChoice) :=
  [.start i (), .step i (.clock now now)]

/-- Request `i` has its answer and records it. -/
def report (i : ℕ) (ok : Bool) (now : Instant) : List (Act ℕ Unit ClientChoice) :=
  [.step i (.remote ok), .step i (.clock now now)]

/-- One failure opens the breaker, and two probes close it. -/
def recovery : List (Act ℕ Unit ClientChoice) :=
  ask 0 1 ++ report 0 false 2 ++ ask 1 12 ++ report 1 true 13 ++ ask 2 14 ++ report 2 true 15

/-- The steps of a run in which no request is admitted in `Closed` and reports in `HalfOpen`. -/
def probesOnly (c : ClientsConfig ℕ) : Act ℕ Unit ClientChoice → Bool
  | .step i _ =>
    match c.calls i with
    | .running _ (.op .recordSuccess _) => c.shared.admittedIn i = some c.shared.entered
    | _ => true
  | _ => true

theorem noLateSuccess_of_probesOnly (c : ClientsConfig ℕ) (a : Act ℕ Unit ClientChoice)
    (h : probesOnly c a = true) : NoLateSuccess c a := by
  rintro i x f rfl hi -
  simp only [probesOnly, hi] at h
  exact of_decide_eq_true h

/-- `probesCount_of_meets` for the run `recovery`, at whose end the breaker has closed after
    two successful probes. -/
theorem probesCount_of_meets_recovery :
    ((clients twoProbes).machine.run ⟨⟨CircuitBreaker.new, 0, fun _ => none, 0, []⟩,
      fun _ => .idle⟩ recovery).map (fun c => (c.shared.inner.state, c.shared.closings)) =
        some (.closed, [2]) ∧
    (clients twoProbes).machine.Along (ProbesCount twoProbes)
      ⟨⟨CircuitBreaker.new, 0, fun _ => none, 0, []⟩, fun _ => .idle⟩ recovery := by
  have hprobes : (clients twoProbes).machine.meetsAll probesOnly
      ⟨⟨CircuitBreaker.new, 0, fun _ => none, 0, []⟩, fun _ => .idle⟩ recovery = true := by
    decide +kernel
  refine ⟨by decide +kernel, probesCount_of_meets twoProbes ⟨rfl, fun _ => rfl⟩ ?_⟩
  exact Machine.meets_of_meetsAll noLateSuccess_of_probesOnly hprobes

/-- Three requests are admitted in `Closed`; one fails and opens the breaker. Two probes are
    admitted one after the other, because the successes of the first two requests are taken
    for theirs. -/
def lateSuccesses : List (Act ℕ Unit ClientChoice) :=
  ask 0 1 ++ ask 1 1 ++ ask 2 1 ++ report 2 false 2 ++ ask 3 12 ++ report 0 true 13 ++ ask 4 14 ++
    report 1 true 15

/-- After `lateSuccesses` two probes are unresolved, and the breaker has closed with no
    successful probe. -/
theorem lateSuccesses_close : ∃ c, (clients twoProbes).machine.run
      ⟨⟨CircuitBreaker.new, 0, fun _ => none, 0, []⟩, fun _ => .idle⟩ lateSuccesses = some c ∧
    Unresolved c 3 ∧ Unresolved c 4 ∧ c.shared.inner.state = .closed ∧ c.shared.closings = [0] ∧
    ¬ ProbesCount twoProbes c := by
  have hview : ((clients twoProbes).machine.run
      ⟨⟨CircuitBreaker.new, 0, fun _ => none, 0, []⟩, fun _ => .idle⟩ lateSuccesses).map (fun c =>
        ([3, 4].map fun i => (ahead (c.calls i), c.shared.admittedIn i), c.shared.entered,
          c.shared.inner.state, c.shared.closings)) =
      some ([(true, some 1), (true, some 1)], 1, .closed, [0]) := by decide +kernel
  obtain ⟨c, hrun, hc⟩ := Option.map_eq_some_iff.mp hview
  simp only [List.map_cons, List.map_nil, List.cons.injEq, Prod.mk.injEq, and_true] at hc
  obtain ⟨⟨⟨h3, hin3⟩, h4, hin4⟩, hentered, hstate, hclosings⟩ := hc
  have hu3 : Unresolved c 3 := ⟨h3, by rw [hin3, hentered]⟩
  have hu4 : Unresolved c 4 := ⟨h4, by rw [hin4, hentered]⟩
  refine ⟨c, hrun, hu3, hu4, hstate, hclosings, fun hcount => ?_⟩
  cases hcount.one 3 4 hu3 hu4

end SocialApi.Clients
