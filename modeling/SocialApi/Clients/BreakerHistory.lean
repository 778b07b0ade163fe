import SocialApi.Clients.CircuitBreaker
import SocialApi.Concurrent.Machine
import SocialApi.Concurrent.SlidingWindow

/-!
# The breaker as a function of its history

A breaker that keeps everything that has happened since it entered its current state
could decide from that alone. `nextState` and `admits` do so; the counters, the
pruned window, the timestamp and the flag of `circuit_breaker.rs` summarise the same
history.

* `Summarised`: what the fields of the breaker say about the history.
* `historyBased_of_meets`: in every run with non-decreasing clock readings the breaker
  decides as its history does, as long as the window of a failure recorded in `Closed`
  has fewer than 2 ^ 32 outcomes.
* `window_wraps`: with 2 ^ 32 outcomes their number, cut to a `u32`, is zero, and the
  failure rate is not looked at.
-/

namespace SocialApi.Clients

open SocialApi.Concurrent SocialApi.SlidingWindow

/-- A call on the breaker, with the clock readings it makes. -/
inductive BreakerCall where
  | allowRequest (now : Instant)
  | recordSuccess (now : Instant)
  | recordFailure (now now' : Instant)
  deriving DecidableEq, Repr

/-- What happens to a breaker. -/
inductive Event where
  | admitted
  | recorded (r : CallRecord)
  deriving DecidableEq, Repr

/-- The outcome an event records. -/
def Event.outcome : Event → Option CallRecord
  | admitted => none
  | recorded r => some r

/-- A breaker and its history. -/
structure History where
  inner : Inner
  /-- The latest clock reading. -/
  clock : Instant
  /-- When a failure was last recorded. -/
  failedAt : Option Instant
  /-- What has happened since the current state was entered. -/
  events : List Event
  deriving DecidableEq, Repr

namespace History

def new : History := ⟨CircuitBreaker.new, 0, none, []⟩

/-- The outcomes recorded since the current state was entered. -/
def outcomes (h : History) : List CallRecord := h.events.filterMap Event.outcome

/-- The events that still count once the breaker is in `inner`. -/
def kept (h : History) (inner : Inner) (events : List Event) : List Event :=
  if inner.state = h.inner.state then events else []

/-- The breaker and its history after a call. An admission that enters `HalfOpen` belongs to
    the new state; an outcome that ends a state does not. -/
def next (config : CircuitBreakerConfig) (h : History) : BreakerCall → History
  | .allowRequest now =>
    let (inner, allowed) := CircuitBreaker.allowRequest config now h.inner
    { inner, clock := now, failedAt := h.failedAt,
      events := h.kept inner h.events ++ if allowed then [.admitted] else [] }
  | .recordSuccess now =>
    let inner := CircuitBreaker.recordSuccess config now h.inner
    { inner, clock := now, failedAt := h.failedAt,
      events := h.kept inner (h.events ++ [.recorded ⟨now, true⟩]) }
  | .recordFailure now now' =>
    let inner := CircuitBreaker.recordFailure config now now' h.inner
    { inner, clock := now', failedAt := some now,
      events := h.kept inner (h.events ++ [.recorded ⟨now', false⟩]) }

end History

/-- The clock readings of a call do not decrease and are not before `clock`. -/
def BreakerCall.From (clock : Instant) : BreakerCall → Prop
  | allowRequest now => clock ≤ now
  | recordSuccess now => clock ≤ now
  | recordFailure now now' => clock ≤ now ∧ now ≤ now'

instance (clock : Instant) (call : BreakerCall) : Decidable (call.From clock) := by
  cases call <;> unfold BreakerCall.From <;> infer_instance

/-- The breaker and its history under calls with non-decreasing clock readings. -/
def breakerMachine (config : CircuitBreakerConfig) : Machine History BreakerCall where
  init h := h = .new
  step h call := if call.From h.clock then some (h.next config call) else none

/-! ## The history-based breaker -/

/-- How many of the last outcomes in a row were `b`. -/
def trailing (b : Bool) (outcomes : List CallRecord) : ℕ :=
  (outcomes.reverse.takeWhile fun r => r.success = b).length

/-- The outcomes that are no older than `rate_window`. -/
def notOlder (config : CircuitBreakerConfig) (now : Instant) (outcomes : List CallRecord) :
    List CallRecord :=
  recent (fun r => (r.timestamp : ℤ)) ((now : ℤ) - config.rateWindow) outcomes

/-- The outcomes that were no older than `rate_window` when the last one was recorded. -/
def windowOf (config : CircuitBreakerConfig) (outcomes : List CallRecord) : List CallRecord :=
  match outcomes.getLast? with
  | none => []
  | some r => notOlder config r.timestamp outcomes

/-- `outcomes` call for opening the breaker: a run of failures or too many in the window. -/
def trips (config : CircuitBreakerConfig) (outcomes : List CallRecord) : Bool :=
  let window := windowOf config outcomes
  trailing false outcomes = config.failureThreshold ||
    (config.minCallsForRate ≤ window.length &&
      quotientAbove (window.filter fun r => !r.success).length window.length
        config.failureRateThreshold)

/-- `recovery_timeout` has passed since a failure was last recorded. -/
def recovered (config : CircuitBreakerConfig) (now : Instant) (failedAt : Option Instant) : Bool :=
  failedAt.any fun t => config.recoveryTimeout ≤ now - t

/-- The state the history calls for after a call. -/
def nextState (config : CircuitBreakerConfig) (h : History) : BreakerCall → CircuitState
  | .allowRequest now =>
    if h.inner.state = .opened ∧ recovered config now h.failedAt then .halfOpen else h.inner.state
  | .recordSuccess now =>
    if h.inner.state = .halfOpen ∧
      trailing true (h.outcomes ++ [⟨now, true⟩]) = config.successThreshold then .closed
    else h.inner.state
  | .recordFailure _ now' =>
    match h.inner.state with
    | .closed => if trips config (h.outcomes ++ [⟨now', false⟩]) then .opened else .closed
    | .halfOpen => .opened
    | .opened => .opened

/-- Whether the history admits a request: a recovering breaker waits for the outcome of the
    one it has admitted. -/
def admits (config : CircuitBreakerConfig) (h : History) (now : Instant) : Bool :=
  match h.inner.state with
  | .closed => true
  | .halfOpen => h.events.getLast? ≠ some .admitted
  | .opened => recovered config now h.failedAt

/-- What the fields of the breaker say about its history. -/
structure Summarised (config : CircuitBreakerConfig) (h : History) : Prop where
  failures : h.inner.state = .closed → h.inner.consecutiveFailures = trailing false h.outcomes ∧
    h.inner.consecutiveFailures < config.failureThreshold
  window : h.inner.state = .closed → h.inner.callWindow = windowOf config h.outcomes
  successes : h.inner.state = .halfOpen →
    h.inner.consecutiveSuccesses = trailing true h.outcomes ∧
      h.inner.consecutiveSuccesses = h.outcomes.length ∧
      h.inner.consecutiveSuccesses < config.successThreshold
  probe : h.inner.state = .halfOpen →
    (h.inner.probeInFlight = true ↔ h.events.getLast? = some .admitted)
  failedAt : h.inner.lastFailureTime = h.failedAt

/-- The call leaves the breaker in the state the history calls for, admits as the history
    does, and keeps the summary. -/
structure HistoryBased (config : CircuitBreakerConfig) (h : History) (call : BreakerCall) :
    Prop where
  summarised : Summarised config (h.next config call)
  state : (h.next config call).inner.state = nextState config h call
  admits : ∀ now, call = .allowRequest now →
    (CircuitBreaker.allowRequest config now h.inner).2 = admits config h now

/-- The window of a failure recorded in `Closed` has fewer than 2 ^ 32 outcomes. -/
def WindowFits (config : CircuitBreakerConfig) (h : History) : BreakerCall → Prop
  | .recordFailure _ now' => h.inner.state = .closed →
    (windowOf config (h.outcomes ++ [⟨now', false⟩])).length < 2 ^ 32
  | _ => True

instance (config : CircuitBreakerConfig) (h : History) (call : BreakerCall) :
    Decidable (WindowFits config h call) := by
  cases call <;> unfold WindowFits <;> infer_instance

/-! ## Histories -/

section Lemmas

variable {config : CircuitBreakerConfig} {h h' : History} {now now' : Instant}

@[simp] theorem trailing_nil (b : Bool) : trailing b [] = 0 := rfl

@[simp] theorem trailing_append (b : Bool) (outcomes : List CallRecord) (r : CallRecord) :
    trailing b (outcomes ++ [r]) = if r.success = b then trailing b outcomes + 1 else 0 := by
  unfold trailing
  rw [List.reverse_append, List.reverse_singleton, List.singleton_append]
  split_ifs with hr
  · rw [List.takeWhile_cons_of_pos (by simpa using hr), List.length_cons]
  · rw [List.takeWhile_cons_of_neg (by simpa using hr), List.length_nil]

theorem windowOf_append (outcomes : List CallRecord) (r : CallRecord) :
    windowOf config (outcomes ++ [r]) = notOlder config r.timestamp (outcomes ++ [r]) := by
  unfold windowOf
  rw [List.getLast?_concat]

/-- The times of the outcomes do not decrease and are not ahead of the clock. -/
structure Timed (h : History) : Prop where
  ordered : Ordered (fun r => (r.timestamp : ℤ)) h.outcomes
  past : ∀ r ∈ h.outcomes, r.timestamp ≤ h.clock

theorem timed_new : Timed .new := ⟨List.Pairwise.nil, fun _ hr => by cases hr⟩

/-- Neither an admission nor a new state adds an outcome. -/
theorem Timed.shrink (ht : Timed h) (hclock : h.clock ≤ h'.clock)
    (hout : h'.outcomes = h.outcomes ∨ h'.outcomes = []) : Timed h' := by
  rcases hout with hout | hout
  · exact ⟨hout ▸ ht.ordered, fun r hr => (ht.past r (hout ▸ hr)).trans hclock⟩
  · exact ⟨hout ▸ List.Pairwise.nil, fun r hr => by rw [hout] at hr; cases hr⟩

/-- The outcome recorded last is the latest. -/
theorem Timed.record (ht : Timed h) (hclock : h.clock ≤ now) {b : Bool}
    (hc : h'.clock = now) (hout : h'.outcomes = h.outcomes ++ [⟨now, b⟩]) : Timed h' := by
  have hlate : ∀ r ∈ h.outcomes, r.timestamp ≤ now := fun r hr => (ht.past r hr).trans hclock
  constructor
  · rw [hout]
    exact ht.ordered.append_singleton fun r hr => by exact_mod_cast hlate r hr
  · intro r hr
    rw [hout] at hr
    rw [hc]
    rcases List.mem_append.mp hr with hr | hr
    · exact hlate r hr
    · rw [List.mem_singleton.mp hr]

theorem next_recordSuccess (config : CircuitBreakerConfig) (now : Instant) {inner : Inner}
    (hrec : CircuitBreaker.recordSuccess config now h.inner = inner) :
    h.next config (.recordSuccess now) =
      ⟨inner, now, h.failedAt, h.kept inner (h.events ++ [.recorded ⟨now, true⟩])⟩ := by
  rw [← hrec]
  rfl

theorem next_recordFailure (config : CircuitBreakerConfig) (now now' : Instant) {inner : Inner}
    (hrec : CircuitBreaker.recordFailure config now now' h.inner = inner) :
    h.next config (.recordFailure now now') =
      ⟨inner, now', some now, h.kept inner (h.events ++ [.recorded ⟨now', false⟩])⟩ := by
  rw [← hrec]
  rfl

theorem outcomes_allowRequest (h : History) (inner : Inner) (allowed : Bool) (clock : Instant)
    (failedAt : Option Instant) :
    (History.mk inner clock failedAt (h.kept inner h.events ++
      if allowed then [.admitted] else [])).outcomes =
      if inner.state = h.inner.state then h.outcomes else [] := by
  unfold History.outcomes History.kept
  split_ifs <;> simp [Event.outcome]

theorem outcomes_record (h : History) (inner : Inner) (r : CallRecord) (clock : Instant)
    (failedAt : Option Instant) :
    (History.mk inner clock failedAt (h.kept inner (h.events ++ [.recorded r]))).outcomes =
      if inner.state = h.inner.state then h.outcomes ++ [r] else [] := by
  unfold History.outcomes History.kept
  split_ifs <;> simp [Event.outcome]

theorem Timed.next {call : BreakerCall} (ht : Timed h) (hfrom : call.From h.clock) :
    Timed (h.next config call) := by
  cases call with
  | allowRequest now =>
    refine ht.shrink hfrom ?_
    unfold History.next
    rw [outcomes_allowRequest]
    split_ifs
    · exact Or.inl rfl
    · exact Or.inr rfl
  | recordSuccess now =>
    by_cases hs : (CircuitBreaker.recordSuccess config now h.inner).state = h.inner.state
    · exact ht.record hfrom rfl (by unfold History.next; rw [outcomes_record, if_pos hs])
    · exact ht.shrink hfrom (Or.inr (by unfold History.next; rw [outcomes_record, if_neg hs]))
  | recordFailure now now' =>
    have hle : h.clock ≤ now' := hfrom.1.trans hfrom.2
    by_cases hs : (CircuitBreaker.recordFailure config now now' h.inner).state = h.inner.state
    · exact ht.record hle rfl (by unfold History.next; rw [outcomes_record, if_pos hs])
    · exact ht.shrink hle (Or.inr (by unfold History.next; rw [outcomes_record, if_neg hs]))

/-! ## The code's window and rate -/

/-- Recording an outcome in `Closed` prunes the window as the history does. -/
theorem pushCall_window (ht : Timed h) {inner : Inner}
    (hw : inner.callWindow = windowOf config h.outcomes) (hnow : h.clock ≤ now) (b : Bool) :
    (CircuitBreaker.pushCall config now b inner).callWindow =
      windowOf config (h.outcomes ++ [⟨now, b⟩]) := by
  have hkeep : recent (fun r : CallRecord => (r.timestamp : ℤ)) ((now : ℤ) - config.rateWindow)
      [⟨now, b⟩] = [⟨now, b⟩] := recent_singleton (by simp)
  have hcut : (fun r : CallRecord => decide (r.timestamp + config.rateWindow < now)) =
      fun r => decide ((r.timestamp : ℤ) < (now : ℤ) - config.rateWindow) := by
    funext r
    refine decide_eq_decide.mpr ?_
    rw [lt_sub_iff_add_lt]
    norm_cast
  rw [windowOf_append]
  unfold notOlder
  rw [recent_append, hkeep]
  show inner.callWindow.dropWhile _ ++ _ = _
  rw [hcut, hw]
  congr 1
  unfold windowOf
  cases hlast : h.outcomes.getLast? with
  | none =>
    rw [List.getLast?_eq_none_iff.mp hlast]
    rfl
  | some r =>
    have hpast := ht.past r (List.mem_of_getLast? hlast)
    dsimp only [notOlder]
    have hcutoff : (r.timestamp : ℤ) - config.rateWindow ≤ (now : ℤ) - config.rateWindow :=
      sub_le_sub_right (by exact_mod_cast hpast.trans hnow) _
    rw [dropWhile_eq_recent ht.ordered.recent, recent_recent hcutoff]

/-- The rate check of the code, while the length of the window fits in a `u32`. -/
theorem failureRateExceeded_eq {inner : Inner} (hlen : inner.callWindow.length < 2 ^ 32) :
    CircuitBreaker.failureRateExceeded config inner =
      (decide (config.minCallsForRate ≤ inner.callWindow.length) &&
        quotientAbove (inner.callWindow.filter fun r => !r.success).length
          inner.callWindow.length config.failureRateThreshold) := by
  unfold CircuitBreaker.failureRateExceeded
  dsimp only
  rw [Nat.mod_eq_of_lt hlen]
  split_ifs with hmin
  · rw [decide_eq_false (by omega), Bool.false_and]
  · rw [decide_eq_true (by omega), Bool.true_and]

/-! ## One call -/

theorem summarised_new (hf : 1 ≤ config.failureThreshold) : Summarised config .new where
  failures _ := ⟨rfl, hf⟩
  window _ := rfl
  successes hs := by cases hs
  probe hs := by cases hs
  failedAt := rfl

/-- `allow_request`. -/
theorem historyBased_allowRequest (hs : 1 ≤ config.successThreshold) (hh : Summarised config h) :
    HistoryBased config h (.allowRequest now) := by
  have hrecovered : CircuitBreaker.recoveryElapsed config now h.inner =
      recovered config now h.failedAt := by
    unfold CircuitBreaker.recoveryElapsed recovered
    rw [hh.failedAt]
    cases h.failedAt <;> rfl
  -- the request is admitted or rejected, and the breaker stays in its state
  have hstay : ∀ inner allowed, CircuitBreaker.allowRequest config now h.inner = (inner, allowed) →
      inner.state = h.inner.state →
      h.next config (.allowRequest now) = ⟨inner, now, h.failedAt,
        h.events ++ if allowed then [.admitted] else []⟩ ∧
      (h.next config (.allowRequest now)).outcomes = h.outcomes := by
    intro inner allowed hallow hsame
    have hnext : h.next config (.allowRequest now) = ⟨inner, now, h.failedAt,
        h.kept inner h.events ++ if allowed then [.admitted] else []⟩ := by
      unfold History.next
      simp only [hallow]
    refine ⟨?_, ?_⟩
    · rw [hnext, History.kept, if_pos hsame]
    · rw [hnext, outcomes_allowRequest, if_pos hsame]
  cases hst : h.inner.state with
  | closed =>
    have hallow : CircuitBreaker.allowRequest config now h.inner = (h.inner, true) :=
      CircuitBreaker.allowRequest_of_closed hst
    obtain ⟨hnext, hout⟩ := hstay _ _ hallow rfl
    refine ⟨⟨fun _ => ?_, fun _ => ?_, fun hs => ?_, fun hs => ?_, ?_⟩, ?_, fun n hn => ?_⟩
    · rw [hout, hnext]; exact hh.failures hst
    · rw [hout, hnext]; exact hh.window hst
    · rw [hnext, hst] at hs; cases hs
    · rw [hnext, hst] at hs; cases hs
    · rw [hnext]; exact hh.failedAt
    · rw [hnext]; simp [nextState, hst]
    · cases hn
      rw [hallow]
      simp [Clients.admits, hst]
  | halfOpen =>
    have hprobe := hh.probe hst
    cases hp : h.inner.probeInFlight with
    | true =>
      have hallow : CircuitBreaker.allowRequest config now h.inner = (h.inner, false) :=
        CircuitBreaker.allowRequest_of_taken hst hp
      obtain ⟨hnext, hout⟩ := hstay _ _ hallow rfl
      have hlast := hprobe.mp hp
      refine ⟨⟨fun hs => ?_, fun hs => ?_, fun _ => ?_, fun _ => ?_, ?_⟩, ?_, fun n hn => ?_⟩
      · rw [hnext, hst] at hs; cases hs
      · rw [hnext, hst] at hs; cases hs
      · rw [hout, hnext]; exact hh.successes hst
      · rw [hnext]; simpa using hprobe
      · rw [hnext]; exact hh.failedAt
      · rw [hnext]; simp [nextState, hst]
      · cases hn
        rw [hallow]
        simp [Clients.admits, hst, hlast]
    | false =>
      have hallow : CircuitBreaker.allowRequest config now h.inner =
          ({ h.inner with probeInFlight := true }, true) :=
        CircuitBreaker.allowRequest_of_probe hst hp
      obtain ⟨hnext, hout⟩ := hstay _ _ hallow rfl
      have hlast : h.events.getLast? ≠ some .admitted := fun hl => by
        rw [hprobe.mpr hl] at hp
        cases hp
      refine ⟨⟨fun hs => ?_, fun hs => ?_, fun _ => ?_, fun _ => ?_, ?_⟩, ?_, fun n hn => ?_⟩
      · rw [hnext, hst] at hs; cases hs
      · rw [hnext, hst] at hs; cases hs
      · rw [hout, hnext]; exact hh.successes hst
      · rw [hnext]; simp
      · rw [hnext]; exact hh.failedAt
      · rw [hnext]; simp [nextState, hst]
      · cases hn
        rw [hallow]
        simp [Clients.admits, hst, hlast]
  | opened =>
    cases hr : recovered config now h.failedAt with
    | true =>
      have hallow : CircuitBreaker.allowRequest config now h.inner =
          ({ h.inner with state := .halfOpen, consecutiveSuccesses := 0, probeInFlight := true },
            true) := CircuitBreaker.allowRequest_of_recovered hst (hrecovered.trans hr)
      have hnext : h.next config (.allowRequest now) =
          ⟨{ h.inner with state := .halfOpen, consecutiveSuccesses := 0, probeInFlight := true }, now,
            h.failedAt, [.admitted]⟩ := by
        unfold History.next
        simp [hallow, History.kept, hst]
      refine ⟨⟨fun hs => ?_, fun hs => ?_, fun _ => ?_, fun _ => ?_, ?_⟩, ?_, fun n hn => ?_⟩
      · rw [hnext] at hs; cases hs
      · rw [hnext] at hs; cases hs
      · rw [hnext]; exact ⟨rfl, rfl, hs⟩
      · rw [hnext]; simp
      · rw [hnext]; exact hh.failedAt
      · rw [hnext]; simp [nextState, hst, hr]
      · cases hn
        rw [hallow]
        simp [Clients.admits, hst, hr]
    | false =>
      have hallow : CircuitBreaker.allowRequest config now h.inner = (h.inner, false) :=
        CircuitBreaker.allowRequest_of_opened hst (hrecovered.trans hr)
      obtain ⟨hnext, -⟩ := hstay _ _ hallow rfl
      refine ⟨⟨fun hs => ?_, fun hs => ?_, fun hs => ?_, fun hs => ?_, ?_⟩, ?_, fun n hn => ?_⟩
      · rw [hnext, hst] at hs; cases hs
      · rw [hnext, hst] at hs; cases hs
      · rw [hnext, hst] at hs; cases hs
      · rw [hnext, hst] at hs; cases hs
      · rw [hnext]; exact hh.failedAt
      · rw [hnext]; simp [nextState, hst, hr]
      · cases hn
        rw [hallow]
        simp [Clients.admits, hst, hr]

/-- A record that leaves the breaker open says only when a failure was last recorded. -/
theorem Summarised.ofOpened (hst : h.inner.state = .opened)
    (hf : h.inner.lastFailureTime = h.failedAt) : Summarised config h where
  failures hs := by rw [hst] at hs; cases hs
  window hs := by rw [hst] at hs; cases hs
  successes hs := by rw [hst] at hs; cases hs
  probe hs := by rw [hst] at hs; cases hs
  failedAt := hf

/-- `record_success`. -/
theorem historyBased_recordSuccess (hf : 1 ≤ config.failureThreshold) (ht : Timed h)
    (hh : Summarised config h) (hclock : h.clock ≤ now) :
    HistoryBased config h (.recordSuccess now) := by
  cases hst : h.inner.state with
  | closed =>
    have hn := next_recordSuccess config now (CircuitBreaker.recordSuccess_of_closed hst)
    have hout := congrArg History.outcomes hn
    rw [outcomes_record, if_pos rfl] at hout
    have hpush := pushCall_window ht (hh.window hst) hclock true
    refine ⟨⟨fun _ => ?_, fun _ => ?_, fun hs => ?_, fun hs => ?_, ?_⟩, ?_, fun n hn => by cases hn⟩
    · rw [hout, hn, trailing_append]
      exact ⟨rfl, hf⟩
    · rw [hout, hn]
      exact hpush
    · rw [hn] at hs
      cases hst.symm.trans hs
    · rw [hn] at hs
      cases hst.symm.trans hs
    · rw [hn]
      exact hh.failedAt
    · rw [hn]
      simp [nextState, hst]
  | halfOpen =>
    obtain ⟨hrun, hlen, hlt⟩ := hh.successes hst
    have hcount : trailing true (h.outcomes ++ [⟨now, true⟩]) = h.inner.consecutiveSuccesses + 1 := by
      rw [trailing_append, if_pos rfl, hrun]
    by_cases hlast : config.successThreshold ≤ h.inner.consecutiveSuccesses + 1
    · have hn := next_recordSuccess config now (CircuitBreaker.recordSuccess_of_last hst hlast)
      have hout := congrArg History.outcomes hn
      rw [outcomes_record, hst, if_neg (by simp)] at hout
      refine ⟨⟨fun _ => ?_, fun _ => ?_, fun hs => ?_, fun hs => ?_, ?_⟩, ?_,
        fun n hn => by cases hn⟩
      · rw [hout, hn]
        exact ⟨rfl, hf⟩
      · rw [hout, hn]
        rfl
      · rw [hn] at hs
        cases hs
      · rw [hn] at hs
        cases hs
      · rw [hn]
        exact hh.failedAt
      · have heq : h.inner.consecutiveSuccesses + 1 = config.successThreshold := by omega
        rw [hn]
        simp [nextState, hst, hcount, heq]
    · have hlast : h.inner.consecutiveSuccesses + 1 < config.successThreshold := not_le.mp hlast
      have hn := next_recordSuccess config now (CircuitBreaker.recordSuccess_of_halfOpen hst hlast)
      have hout := congrArg History.outcomes hn
      rw [outcomes_record, if_pos rfl] at hout
      refine ⟨⟨fun hs => ?_, fun hs => ?_, fun _ => ?_, fun _ => ?_, ?_⟩, ?_,
        fun n hn => by cases hn⟩
      · rw [hn] at hs
        cases hst.symm.trans hs
      · rw [hn] at hs
        cases hst.symm.trans hs
      · rw [hout, hn, hcount, List.length_append]
        exact ⟨rfl, congrArg (· + 1) hlen, hlast⟩
      · rw [hn]
        simp [History.kept]
      · rw [hn]
        exact hh.failedAt
      · have hne : h.inner.consecutiveSuccesses + 1 ≠ config.successThreshold := by omega
        rw [hn]
        simp [nextState, hst, hcount, hne]
  | opened =>
    have hn := next_recordSuccess config now (CircuitBreaker.recordSuccess_of_opened hst)
    refine ⟨.ofOpened ?_ ?_, ?_, fun n hn => by cases hn⟩
    · rw [hn]
      exact hst
    · rw [hn]
      exact hh.failedAt
    · rw [hn]
      simp [nextState, hst]

/-- `record_failure`. -/
theorem historyBased_recordFailure (ht : Timed h) (hh : Summarised config h)
    (hclock : h.clock ≤ now) (hnow : now ≤ now')
    (hfits : WindowFits config h (.recordFailure now now')) :
    HistoryBased config h (.recordFailure now now') := by
  cases hst : h.inner.state with
  | closed =>
    obtain ⟨hrun, hlt⟩ := hh.failures hst
    have hpush := pushCall_window ht (hh.window hst) (hclock.trans hnow) false
    have hcount : trailing false (h.outcomes ++ [⟨now', false⟩]) =
        h.inner.consecutiveFailures + 1 := by
      rw [trailing_append, if_pos rfl, hrun]
    have hrate : CircuitBreaker.failureRateExceeded config
        (CircuitBreaker.pushCall config now' false h.inner) = _ :=
      failureRateExceeded_eq (by rw [hpush]; exact hfits hst)
    rw [hpush] at hrate
    by_cases htrip : trips config (h.outcomes ++ [⟨now', false⟩]) = true
    · have hcode : config.failureThreshold ≤ h.inner.consecutiveFailures + 1 ∨
          CircuitBreaker.failureRateExceeded config
            (CircuitBreaker.pushCall config now' false h.inner) = true := by
        unfold trips at htrip
        rw [hcount, Bool.or_eq_true, decide_eq_true_eq] at htrip
        exact htrip.imp (fun he => he.ge) fun hr => hrate.trans hr
      have hn := next_recordFailure config now now' (CircuitBreaker.recordFailure_of_trip hst hcode)
      refine ⟨.ofOpened ?_ ?_, ?_, fun n hn => by cases hn⟩
      · rw [hn]
      · rw [hn]
      · rw [hn]
        simp [nextState, hst, htrip]
    · have hcode : h.inner.consecutiveFailures + 1 < config.failureThreshold ∧
          CircuitBreaker.failureRateExceeded config
            (CircuitBreaker.pushCall config now' false h.inner) = false := by
        unfold trips at htrip
        rw [hcount, Bool.or_eq_true, decide_eq_true_eq, not_or, Bool.not_eq_true] at htrip
        exact ⟨by omega, hrate.trans htrip.2⟩
      have hn := next_recordFailure config now now' (CircuitBreaker.recordFailure_of_closed hst hcode.1 hcode.2)
      have hout := congrArg History.outcomes hn
      rw [outcomes_record, if_pos rfl] at hout
      refine ⟨⟨fun _ => ?_, fun _ => ?_, fun hs => ?_, fun hs => ?_, ?_⟩, ?_,
        fun n hn => by cases hn⟩
      · rw [hout, hn, hcount]
        exact ⟨rfl, hcode.1⟩
      · rw [hout, hn]
        exact hpush
      · rw [hn] at hs
        cases hst.symm.trans hs
      · rw [hn] at hs
        cases hst.symm.trans hs
      · rw [hn]
      · rw [hn]
        simp [nextState, hst, htrip]
  | halfOpen =>
    have hn := next_recordFailure config now now' (CircuitBreaker.recordFailure_of_halfOpen hst)
    refine ⟨.ofOpened ?_ ?_, ?_, fun n hn => by cases hn⟩
    · rw [hn]
    · rw [hn]
    · rw [hn]
      simp [nextState, hst]
  | opened =>
    have hn := next_recordFailure config now now' (CircuitBreaker.recordFailure_of_opened hst)
    refine ⟨.ofOpened ?_ ?_, ?_, fun n hn => by cases hn⟩
    · rw [hn]
      exact hst
    · rw [hn]
    · rw [hn]
      simp [nextState, hst]

end Lemmas

/-! ## All runs -/

/-- In every run from a new breaker with non-decreasing clock readings, each call does what
    the history calls for, if every failure recorded in `Closed` finds fewer than 2 ^ 32
    outcomes in the window. -/
theorem historyBased_of_meets {config : CircuitBreakerConfig} (hf : 1 ≤ config.failureThreshold)
    (hs : 1 ≤ config.successThreshold) {h : History} {calls : List BreakerCall}
    (hrun : (breakerMachine config).run .new calls = some h)
    (hmeets : (breakerMachine config).Meets (WindowFits config) .new calls) :
    (breakerMachine config).Meets (HistoryBased config) .new calls := by
  have hinit : Timed .new ∧ Summarised config .new := ⟨timed_new, summarised_new hf⟩
  refine hmeets.of_keeps (I := fun h => Timed h ∧ Summarised config h) ?_ hinit hrun
  rintro h call h' ⟨ht, hh⟩ hfits hstep
  simp only [breakerMachine] at hstep
  split_ifs at hstep with hfrom
  cases hstep
  have hbased : HistoryBased config h call := by
    cases call with
    | allowRequest now => exact historyBased_allowRequest hs hh
    | recordSuccess now => exact historyBased_recordSuccess hf ht hh hfrom
    | recordFailure now now' => exact historyBased_recordFailure ht hh hfrom.1 hfrom.2 hfits
  exact ⟨⟨ht.next hfrom, hbased.summarised⟩, hbased⟩

/-- A breaker that one failure opens and one success closes. -/
def touchy : CircuitBreakerConfig where
  failureThreshold := 1
  recoveryTimeout := 10
  successThreshold := 1
  rateWindow := 30
  failureRateThreshold := 1 / 2
  minCallsForRate := 10

/-- The breaker opens, rejects a request, recovers and closes. -/
def openAndClose : List BreakerCall :=
  [.allowRequest 1, .recordSuccess 2, .recordFailure 3 4, .allowRequest 8, .allowRequest 13,
    .allowRequest 14, .recordSuccess 15]

/-- `historyBased_of_meets` for the run `openAndClose`. -/
theorem historyBased_of_meets_openAndClose :
    ((breakerMachine touchy).run .new openAndClose).map (fun h => (h.inner.state, h.events)) =
      some (.closed, []) ∧
    (breakerMachine touchy).Meets (HistoryBased touchy) .new openAndClose := by
  have hview : ((breakerMachine touchy).run .new openAndClose).map
      (fun h => (h.inner.state, h.events)) = some (.closed, []) := by decide +kernel
  have hfits : (breakerMachine touchy).meetsAll (fun h call => decide (WindowFits touchy h call))
      .new openAndClose = true := by decide +kernel
  obtain ⟨h, hrun, -⟩ := Option.map_eq_some_iff.mp hview
  refine ⟨hview, historyBased_of_meets (by decide) (by decide) hrun ?_⟩
  exact Machine.meets_of_meetsAll (fun h call hc => of_decide_eq_true hc) hfits

/-! ## A window of 2 ^ 32 outcomes -/

/-- One outcome is enough for the rate check, and one failure among them too many. -/
def strict : CircuitBreakerConfig :=
  { touchy with failureThreshold := 2, failureRateThreshold := 0, minCallsForRate := 1 }

/-- The breaker after `n` successes at time zero. -/
def succeeded (n : ℕ) : History where
  inner := { CircuitBreaker.new with callWindow := List.replicate n ⟨0, true⟩ }
  clock := 0
  failedAt := none
  events := List.replicate n (.recorded ⟨0, true⟩)

theorem succeeded_outcomes (n : ℕ) : (succeeded n).outcomes = List.replicate n ⟨0, true⟩ :=
  List.filterMap_replicate_of_some rfl

theorem run_successes (n : ℕ) : (breakerMachine strict).run .new
    (List.replicate n (.recordSuccess 0)) = some (succeeded n) := by
  induction n with
  | zero => rfl
  | succ n ih =>
    rw [List.replicate_succ', Machine.run_append]
    refine ⟨succeeded n, ih, ?_⟩
    have hpush : (CircuitBreaker.pushCall strict 0 true (succeeded n).inner).callWindow =
        List.replicate (n + 1) ⟨0, true⟩ := by
      show (List.replicate n (⟨0, true⟩ : CallRecord)).dropWhile _ ++ [⟨0, true⟩] = _
      rw [List.dropWhile_replicate, if_neg (by simp), List.replicate_succ']
    have hrec : CircuitBreaker.recordSuccess strict 0 (succeeded n).inner = _ :=
      CircuitBreaker.recordSuccess_of_closed rfl
    rw [hpush] at hrec
    have hnext := next_recordSuccess strict 0 hrec
    unfold History.kept at hnext
    rw [if_pos rfl] at hnext
    show some ((succeeded n).next strict (.recordSuccess 0)) = _
    rw [hnext]
    unfold succeeded
    rw [List.replicate_succ' (a := Event.recorded ⟨0, true⟩)]
    rfl

/-- The outcomes of `succeeded n` and a failure. -/
def succeededThenFailed (n : ℕ) : List CallRecord := List.replicate n ⟨0, true⟩ ++ [⟨0, false⟩]

theorem length_succeededThenFailed (n : ℕ) : (succeededThenFailed n).length = n + 1 := by
  simp [succeededThenFailed]

theorem failures_succeededThenFailed (n : ℕ) :
    ((succeededThenFailed n).filter fun r => !r.success).length = 1 := by
  simp [succeededThenFailed, List.filter_append]

/-- At time zero everything is in the window. -/
theorem windowOf_succeededThenFailed (n : ℕ) :
    windowOf strict (succeededThenFailed n) = succeededThenFailed n := by
  unfold succeededThenFailed
  rw [windowOf_append]
  refine List.filter_eq_self.mpr fun r hr => ?_
  rcases List.mem_append.mp hr with hr | hr
  · rw [List.eq_of_mem_replicate hr]
    rfl
  · rw [List.mem_singleton.mp hr]
    rfl

/-- A failure that makes them 2 ^ 32 outcomes does not open the breaker, though the history
    calls for it. -/
theorem not_historyBased_succeeded {n : ℕ} (hn : n + 1 = 2 ^ 32) :
    ¬ HistoryBased strict (succeeded n) (.recordFailure 0 0) := by
  intro hbased
  -- the code: the number of outcomes, cut to a `u32`, is zero
  have hpush : (CircuitBreaker.pushCall strict 0 false (succeeded n).inner).callWindow =
      succeededThenFailed n := by
    show (List.replicate n (⟨0, true⟩ : CallRecord)).dropWhile _ ++ [⟨0, false⟩] = _
    rw [List.dropWhile_replicate, if_neg (by simp)]
    rfl
  have hrate : CircuitBreaker.failureRateExceeded strict
      (CircuitBreaker.pushCall strict 0 false (succeeded n).inner) = false := by
    unfold CircuitBreaker.failureRateExceeded
    rw [hpush, length_succeededThenFailed, hn, Nat.mod_self]
    rfl
  have hrec : CircuitBreaker.recordFailure strict 0 0 (succeeded n).inner = _ :=
    CircuitBreaker.recordFailure_of_closed rfl Nat.one_lt_two hrate
  have hnext := next_recordFailure strict 0 0 hrec
  -- the history: one failure in the window is too many
  have htrips : trips strict ((succeeded n).outcomes ++ [⟨0, false⟩]) = true := by
    have hmin : strict.minCallsForRate ≤ n + 1 := Nat.le_add_left 1 n
    have habove : quotientAbove 1 (n + 1) 0 = true := by
      unfold quotientAbove
      rw [if_neg (Nat.succ_ne_zero n)]
      refine decide_eq_true (toF64_pos (div_pos (toF64_pos (by norm_num)) (toF64_pos ?_)))
      exact_mod_cast Nat.succ_pos n
    unfold trips
    rw [succeeded_outcomes, show List.replicate n _ ++ _ = succeededThenFailed n from rfl,
      windowOf_succeededThenFailed]
    dsimp only
    rw [length_succeededThenFailed, failures_succeededThenFailed,
      decide_eq_true hmin, Bool.true_and, show strict.failureRateThreshold = 0 from rfl, habove,
      Bool.or_true]
  have hstate := hbased.state
  rw [hnext] at hstate
  have hopened : nextState strict (succeeded n) (.recordFailure 0 0) = .opened := by
    show (if trips strict _ = true then CircuitState.opened else .closed) = _
    rw [htrips, if_pos rfl]
  rw [hopened] at hstate
  cases hstate

/-- A run of 2 ^ 32 - 1 successes and a failure, all at time zero. -/
theorem window_wraps : ∃ h, (breakerMachine strict).run .new
      (List.replicate (2 ^ 32 - 1) (.recordSuccess 0)) = some h ∧
    BreakerCall.From h.clock (.recordFailure 0 0) ∧
    ¬ HistoryBased strict h (.recordFailure 0 0) :=
  ⟨_, run_successes _, ⟨le_refl _, le_refl _⟩, not_historyBased_succeeded (by norm_num)⟩

end SocialApi.Clients
