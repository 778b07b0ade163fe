import SocialApi.Types

/-!
# The circuit breaker

Model of `clients/circuit_breaker.rs`. Every public operation runs under one
mutex, so it is one atomic function on `Inner`; the clock readings it makes are
arguments. A finite `f64` is the rational it stands for, and `toF64` rounds as its
arithmetic does.

* `allowRequest_cases`, `recordSuccess_state`, `recordFailure_state`: what each
  operation can do to the state.
* `Inner.Ok`: the probe flag is only ever up in `HalfOpen`, and an open breaker
  knows when it last failed; every operation keeps it.
-/

namespace SocialApi.Clients

/-- `CircuitState` (circuit_breaker.rs:7–14). -/
inductive CircuitState where
  | closed
  | halfOpen
  | opened
  deriving DecidableEq, Repr

/-- `CircuitBreakerConfig` (circuit_breaker.rs:28–43), less the service name. -/
structure CircuitBreakerConfig where
  failureThreshold : ℕ
  recoveryTimeout : Duration
  successThreshold : ℕ
  rateWindow : Duration
  failureRateThreshold : ℚ
  minCallsForRate : ℕ

/-- `CallRecord` (circuit_breaker.rs:47–50). -/
structure CallRecord where
  timestamp : Instant
  success : Bool
  deriving DecidableEq, Repr

/-- `Inner` (circuit_breaker.rs:56–65). -/
structure Inner where
  state : CircuitState
  consecutiveFailures : ℕ
  consecutiveSuccesses : ℕ
  lastFailureTime : Option Instant
  callWindow : List CallRecord
  probeInFlight : Bool
  deriving DecidableEq, Repr

/-! ## `f64` -/

/-- The integer nearest to `x`, the even one where two are. -/
def roundHalfEven (x : ℚ) : ℤ :=
  let n := ⌊x⌋
  if x - n < 1 / 2 then n
  else if x - n > 1 / 2 then n + 1
  else if n % 2 = 0 then n else n + 1

/-- The `f64` nearest to `q`, for `q` in the range of normal numbers: 53 bits from the
    leading one on. -/
def toF64 (q : ℚ) : ℚ :=
  if q = 0 then 0
  else
    let e := Int.log 2 |q| - 52
    roundHalfEven (q / 2 ^ e) * 2 ^ e

/-- `a as f64 / b as f64 > threshold`. Dividing by zero gives infinity, or a NaN for
    `0.0 / 0.0`. -/
def quotientAbove (a b : ℕ) (threshold : ℚ) : Bool :=
  if b = 0 then decide (a ≠ 0) else decide (toF64 (toF64 a / toF64 b) > threshold)

theorem toF64_pos {q : ℚ} (hq : 0 < q) : 0 < toF64 q := by
  have he : (0 : ℚ) < 2 ^ (Int.log 2 |q| - 52) := zpow_pos (by norm_num) _
  have hlog : (2 : ℚ) ^ Int.log 2 |q| ≤ |q| := by
    exact_mod_cast Int.zpow_log_le_self (by norm_num) (abs_pos.mpr hq.ne')
  have hone : 1 ≤ q / 2 ^ (Int.log 2 |q| - 52) := by
    rw [le_div_iff₀ he, one_mul]
    calc (2 : ℚ) ^ (Int.log 2 |q| - 52) ≤ 2 ^ Int.log 2 |q| :=
          zpow_le_zpow_right₀ (by norm_num) (by omega)
      _ ≤ |q| := hlog
      _ = q := abs_of_pos hq
  have hround : 1 ≤ roundHalfEven (q / 2 ^ (Int.log 2 |q| - 52)) := by
    have hfloor : 1 ≤ ⌊q / 2 ^ (Int.log 2 |q| - 52)⌋ := Int.le_floor.mpr (by exact_mod_cast hone)
    unfold roundHalfEven
    dsimp only
    split_ifs <;> omega
  unfold toF64
  rw [if_neg hq.ne']
  have hcast : (1 : ℚ) ≤ roundHalfEven (q / 2 ^ (Int.log 2 |q| - 52)) := by exact_mod_cast hround
  exact mul_pos (lt_of_lt_of_le one_pos hcast) he

namespace CircuitBreaker

/-- The state `CircuitBreaker::new` starts in (circuit_breaker.rs:90–97). -/
def new : Inner :=
  { state := .closed, consecutiveFailures := 0, consecutiveSuccesses := 0,
    lastFailureTime := none, callWindow := [], probeInFlight := false }

/-- `do_transition` (circuit_breaker.rs:217–251). -/
def doTransition (inner : Inner) (newState : CircuitState) : Inner :=
  if inner.state = newState then inner
  else
    match newState with
    | .closed =>
      { inner with state := .closed, consecutiveFailures := 0, consecutiveSuccesses := 0,
                   probeInFlight := false, callWindow := [] }
    | .halfOpen =>
      { inner with state := .halfOpen, consecutiveSuccesses := 0, probeInFlight := false }
    | .opened =>
      { inner with state := .opened, consecutiveSuccesses := 0, probeInFlight := false }

/-- `push_call` (circuit_breaker.rs:191–204): entries older than the window are popped
    from the front. -/
def pushCall (config : CircuitBreakerConfig) (now : Instant) (success : Bool)
    (inner : Inner) : Inner :=
  { inner with
    callWindow := inner.callWindow.dropWhile (fun r => r.timestamp + config.rateWindow < now) ++
      [⟨now, success⟩] }

/-- `failure_rate_exceeded` (circuit_breaker.rs:207–215). The length is cut to a `u32`. -/
def failureRateExceeded (config : CircuitBreakerConfig) (inner : Inner) : Bool :=
  let total := inner.callWindow.length % 2 ^ 32
  if total < config.minCallsForRate then false
  else
    let failures := (inner.callWindow.filter fun r => !r.success).length
    quotientAbove failures total config.failureRateThreshold

/-- `recovery_timeout` has elapsed since the last failure (circuit_breaker.rs:117–120).
    `Instant::elapsed` saturates at zero, as subtraction on `ℕ` does. -/
def recoveryElapsed (config : CircuitBreakerConfig) (now : Instant) (inner : Inner) : Bool :=
  match inner.lastFailureTime with
  | some t => now - t ≥ config.recoveryTimeout
  | none => false

/-- `allow_request` (circuit_breaker.rs:105–129). -/
def allowRequest (config : CircuitBreakerConfig) (now : Instant) (inner : Inner) : Inner × Bool :=
  match inner.state with
  | .closed => (inner, true)
  | .halfOpen =>
    if inner.probeInFlight then (inner, false) else ({ inner with probeInFlight := true }, true)
  | .opened =>
    if recoveryElapsed config now inner then
      ({ doTransition inner .halfOpen with probeInFlight := true }, true)
    else (inner, false)

/-- `record_success` (circuit_breaker.rs:132–149). -/
def recordSuccess (config : CircuitBreakerConfig) (now : Instant) (inner : Inner) : Inner :=
  let inner := { inner with consecutiveFailures := 0, probeInFlight := false }
  let inner := if inner.state ≠ .opened then pushCall config now true inner else inner
  if inner.state = .halfOpen then
    let inner := { inner with consecutiveSuccesses := inner.consecutiveSuccesses + 1 }
    if inner.consecutiveSuccesses ≥ config.successThreshold then doTransition inner .closed
    else inner
  else inner

/-- `record_failure` (circuit_breaker.rs:152–182). The clock is read twice: `now` becomes
    `last_failure_time`, `now'` is the time `push_call` reads. -/
def recordFailure (config : CircuitBreakerConfig) (now now' : Instant) (inner : Inner) : Inner :=
  let inner := { inner with consecutiveSuccesses := 0, probeInFlight := false,
                            lastFailureTime := some now }
  let inner := if inner.state ≠ .opened then pushCall config now' false inner else inner
  match inner.state with
  | .closed =>
    let inner := { inner with consecutiveFailures := inner.consecutiveFailures + 1 }
    if inner.consecutiveFailures ≥ config.failureThreshold then doTransition inner .opened
    else if failureRateExceeded config inner then doTransition inner .opened
    else inner
  | .halfOpen => doTransition inner .opened
  | .opened => { inner with consecutiveFailures := inner.consecutiveFailures + 1 }

/-! ## What each operation can do -/

section Effects

variable {config : CircuitBreakerConfig} {now now' : Instant} {inner : Inner}

@[simp] theorem doTransition_state (inner : Inner) (s : CircuitState) :
    (doTransition inner s).state = s := by
  unfold doTransition
  split_ifs with h
  · exact h
  · cases s <;> rfl

@[simp] theorem doTransition_lastFailureTime (inner : Inner) (s : CircuitState) :
    (doTransition inner s).lastFailureTime = inner.lastFailureTime := by
  unfold doTransition
  split_ifs
  · rfl
  · cases s <;> rfl

theorem doTransition_probeInFlight {s : CircuitState} (h : inner.probeInFlight = false) :
    (doTransition inner s).probeInFlight = false := by
  unfold doTransition
  split_ifs
  · exact h
  · cases s <;> rfl

@[simp] theorem pushCall_state (b : Bool) : (pushCall config now b inner).state = inner.state := rfl

@[simp] theorem pushCall_probeInFlight (b : Bool) :
    (pushCall config now b inner).probeInFlight = inner.probeInFlight := rfl

@[simp] theorem pushCall_lastFailureTime (b : Bool) :
    (pushCall config now b inner).lastFailureTime = inner.lastFailureTime := rfl

/-- `allow_request` lets a request through a closed breaker and leaves it alone, gives it
    the free probe slot of a recovering breaker, or rejects it and changes nothing. -/
theorem allowRequest_cases (config : CircuitBreakerConfig) (now : Instant) (inner : Inner) :
    (inner.state = .closed ∧ allowRequest config now inner = (inner, true)) ∨
    (∃ inner', allowRequest config now inner = (inner', true) ∧ inner'.state = .halfOpen ∧
      inner'.probeInFlight = true ∧ inner'.lastFailureTime = inner.lastFailureTime ∧
      ((inner.state = .halfOpen ∧ inner.probeInFlight = false) ∨
        (inner.state = .opened ∧ recoveryElapsed config now inner = true))) ∨
    (allowRequest config now inner = (inner, false) ∧
      ((inner.state = .halfOpen ∧ inner.probeInFlight = true) ∨
        (inner.state = .opened ∧ recoveryElapsed config now inner = false))) := by
  unfold allowRequest
  cases hs : inner.state with
  | closed => exact Or.inl ⟨rfl, rfl⟩
  | halfOpen =>
    cases hp : inner.probeInFlight with
    | true => exact Or.inr (Or.inr ⟨rfl, Or.inl ⟨rfl, rfl⟩⟩)
    | false => exact Or.inr (Or.inl ⟨_, rfl, rfl, rfl, rfl, Or.inl ⟨rfl, rfl⟩⟩)
  | opened =>
    cases hr : recoveryElapsed config now inner with
    | true => exact Or.inr (Or.inl ⟨_, rfl, by simp, rfl, by simp, Or.inr ⟨rfl, rfl⟩⟩)
    | false => exact Or.inr (Or.inr ⟨rfl, Or.inr ⟨rfl, rfl⟩⟩)

/-- A success gives the probe slot back and opens nothing. -/
theorem recordSuccess_state (config : CircuitBreakerConfig) (now : Instant) (inner : Inner) :
    (recordSuccess config now inner).probeInFlight = false ∧
      (recordSuccess config now inner).lastFailureTime = inner.lastFailureTime ∧
      ((recordSuccess config now inner).state = inner.state ∨
        (recordSuccess config now inner).state = .closed) := by
  unfold recordSuccess
  cases hs : inner.state with
  | closed => simp
  | opened => simp
  | halfOpen =>
    simp only [ne_eq, reduceCtorEq, not_false_eq_true, if_true, pushCall_state]
    split_ifs with hn
    · exact ⟨doTransition_probeInFlight (by rfl), by simp, by simp⟩
    · exact ⟨rfl, rfl, Or.inl rfl⟩

/-- A failure gives the probe slot back and sets `last_failure_time`. -/
theorem recordFailure_state (config : CircuitBreakerConfig) (now now' : Instant) (inner : Inner) :
    (recordFailure config now now' inner).probeInFlight = false ∧
      (recordFailure config now now' inner).lastFailureTime = some now ∧
      ((recordFailure config now now' inner).state = .closed ∨
        (recordFailure config now now' inner).state = .opened) := by
  unfold recordFailure
  cases hs : inner.state with
  | closed =>
    simp only [ne_eq, reduceCtorEq, not_false_eq_true, if_true, pushCall_state]
    split_ifs
    · exact ⟨doTransition_probeInFlight rfl, by simp, by simp⟩
    · exact ⟨doTransition_probeInFlight rfl, by simp, by simp⟩
    · exact ⟨rfl, rfl, Or.inl rfl⟩
  | halfOpen =>
    simp only [ne_eq, reduceCtorEq, not_false_eq_true, if_true, pushCall_state]
    exact ⟨doTransition_probeInFlight rfl, by simp, by simp⟩
  | opened => simp

theorem allowRequest_of_closed (hs : inner.state = .closed) :
    allowRequest config now inner = (inner, true) := by
  simp [allowRequest, hs]

/-- The free slot of a recovering breaker. -/
theorem allowRequest_of_probe (hs : inner.state = .halfOpen) (hp : inner.probeInFlight = false) :
    allowRequest config now inner = ({ inner with probeInFlight := true }, true) := by
  simp [allowRequest, hs, hp]

/-- A half-open breaker whose probe slot is taken rejects every request. -/
theorem allowRequest_of_taken (hs : inner.state = .halfOpen) (hp : inner.probeInFlight = true) :
    allowRequest config now inner = (inner, false) := by
  simp [allowRequest, hs, hp]

theorem allowRequest_of_recovered (hs : inner.state = .opened)
    (hr : recoveryElapsed config now inner = true) :
    allowRequest config now inner =
      ({ inner with state := .halfOpen, consecutiveSuccesses := 0, probeInFlight := true },
        true) := by
  simp [allowRequest, hs, hr, doTransition]

theorem allowRequest_of_opened (hs : inner.state = .opened)
    (hr : recoveryElapsed config now inner = false) :
    allowRequest config now inner = (inner, false) := by
  simp [allowRequest, hs, hr]

/-- The rate check looks at the window only. -/
theorem failureRateExceeded_congr {inner' : Inner} (h : inner.callWindow = inner'.callWindow) :
    failureRateExceeded config inner = failureRateExceeded config inner' := by
  unfold failureRateExceeded
  rw [h]

theorem recordSuccess_of_closed (hs : inner.state = .closed) :
    recordSuccess config now inner =
      { inner with consecutiveFailures := 0, probeInFlight := false,
                   callWindow := (pushCall config now true inner).callWindow } := by
  simp [recordSuccess, hs, pushCall]

/-- The success that closes a recovering breaker. -/
theorem recordSuccess_of_last (hs : inner.state = .halfOpen)
    (hn : config.successThreshold ≤ inner.consecutiveSuccesses + 1) :
    recordSuccess config now inner =
      { inner with state := .closed, consecutiveFailures := 0, consecutiveSuccesses := 0,
                   probeInFlight := false, callWindow := [] } := by
  simp [recordSuccess, hs, pushCall, hn, doTransition]

theorem recordSuccess_of_halfOpen (hs : inner.state = .halfOpen)
    (hn : inner.consecutiveSuccesses + 1 < config.successThreshold) :
    recordSuccess config now inner =
      { inner with consecutiveFailures := 0,
                   consecutiveSuccesses := inner.consecutiveSuccesses + 1, probeInFlight := false,
                   callWindow := (pushCall config now true inner).callWindow } := by
  simp [recordSuccess, hs, pushCall, not_le.mpr hn]

theorem recordSuccess_of_opened (hs : inner.state = .opened) :
    recordSuccess config now inner =
      { inner with consecutiveFailures := 0, probeInFlight := false } := by
  simp [recordSuccess, hs]

/-- The failure that opens a closed breaker, by the run of failures or by their rate. -/
theorem recordFailure_of_trip (hs : inner.state = .closed)
    (ht : config.failureThreshold ≤ inner.consecutiveFailures + 1 ∨
      failureRateExceeded config (pushCall config now' false inner) = true) :
    recordFailure config now now' inner =
      { inner with state := .opened, consecutiveFailures := inner.consecutiveFailures + 1,
                   consecutiveSuccesses := 0, lastFailureTime := some now, probeInFlight := false,
                   callWindow := (pushCall config now' false inner).callWindow } := by
  unfold recordFailure
  simp only [hs, ne_eq, reduceCtorEq, not_false_eq_true, if_true, pushCall_state]
  split_ifs with hrun hrate
  · simp [doTransition, hs, pushCall]
  · simp [doTransition, hs, pushCall]
  · rcases ht with ht | ht
    · exact absurd ht hrun
    · exact absurd ((failureRateExceeded_congr rfl).trans ht) hrate

theorem recordFailure_of_closed (hs : inner.state = .closed)
    (hrun : inner.consecutiveFailures + 1 < config.failureThreshold)
    (hrate : failureRateExceeded config (pushCall config now' false inner) = false) :
    recordFailure config now now' inner =
      { inner with consecutiveFailures := inner.consecutiveFailures + 1,
                   consecutiveSuccesses := 0, lastFailureTime := some now, probeInFlight := false,
                   callWindow := (pushCall config now' false inner).callWindow } := by
  unfold recordFailure
  simp only [hs, ne_eq, reduceCtorEq, not_false_eq_true, if_true, pushCall_state]
  split_ifs with hreached hexceeded
  · exact absurd hreached (not_le.mpr hrun)
  · cases hexceeded.symm.trans ((failureRateExceeded_congr rfl).trans hrate)
  · simp [hs, pushCall]

theorem recordFailure_of_halfOpen (hs : inner.state = .halfOpen) :
    recordFailure config now now' inner =
      { inner with state := .opened, consecutiveSuccesses := 0, lastFailureTime := some now,
                   probeInFlight := false,
                   callWindow := (pushCall config now' false inner).callWindow } := by
  simp [recordFailure, hs, pushCall, doTransition]

theorem recordFailure_of_opened (hs : inner.state = .opened) :
    recordFailure config now now' inner =
      { inner with consecutiveFailures := inner.consecutiveFailures + 1,
                   consecutiveSuccesses := 0, lastFailureTime := some now,
                   probeInFlight := false } := by
  simp [recordFailure, hs]

end Effects

/-! ## The probe flag -/

end CircuitBreaker

/-- The probe flag is up only while the breaker is half-open, and an open breaker knows
    when it last failed. -/
structure Inner.Ok (inner : Inner) : Prop where
  probe : inner.probeInFlight = true → inner.state = .halfOpen
  failed : inner.state = .opened → ∃ t, inner.lastFailureTime = some t

namespace CircuitBreaker

theorem ok_new : new.Ok := ⟨by simp [new], by simp [new]⟩

theorem ok_allowRequest {config : CircuitBreakerConfig} {now : Instant} {inner : Inner}
    (h : inner.Ok) : (allowRequest config now inner).1.Ok := by
  rcases allowRequest_cases config now inner with ⟨-, he⟩ | ⟨inner', he, hs, -, -, -⟩ | ⟨he, -⟩
  · rw [he]; exact h
  · rw [he]; exact ⟨fun _ => hs, fun ho => by simp [hs] at ho⟩
  · rw [he]; exact h

theorem ok_recordSuccess {config : CircuitBreakerConfig} {now : Instant} {inner : Inner}
    (h : inner.Ok) : (recordSuccess config now inner).Ok := by
  obtain ⟨hp, hl, hs⟩ := recordSuccess_state config now inner
  refine ⟨fun ht => by simp [hp] at ht, fun ho => ?_⟩
  rcases hs with hs | hs
  · rw [hl]; exact h.failed (hs ▸ ho)
  · simp [hs] at ho

theorem ok_recordFailure {config : CircuitBreakerConfig} {now now' : Instant} {inner : Inner} :
    (recordFailure config now now' inner).Ok := by
  obtain ⟨hp, hl, -⟩ := recordFailure_state config now now' inner
  exact ⟨fun ht => by simp [hp] at ht, fun _ => ⟨now, hl⟩⟩

/-- With the probe slot free, a breaker that is not open, or whose recovery time has
    passed since the last failure, admits the next request. -/
theorem allowRequest_of_free {config : CircuitBreakerConfig} {now : Instant} {inner : Inner}
    (hp : inner.probeInFlight = false)
    (h : inner.state = .opened → recoveryElapsed config now inner = true) :
    (allowRequest config now inner).2 = true := by
  rcases allowRequest_cases config now inner with ⟨-, he⟩ | ⟨inner', he, -⟩ | ⟨-, ⟨-, hp'⟩ | ⟨hs, hr⟩⟩
  · rw [he]
  · rw [he]
  · simp [hp] at hp'
  · simp [h hs] at hr

end CircuitBreaker

end SocialApi.Clients
