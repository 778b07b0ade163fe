import SocialApi.Clients.BreakerHistory

/-!
# The rate rule of a closed breaker

"Closed → Open: after … >50% failure rate in a 30-second window". `record_failure` looks
at the rate after every outcome it records, `record_success` records one and does not
look, though the success it adds and the outcomes it prunes change the rate as well.

* `rateRule_iff`: in every run in which no window has 2 ^ 32 outcomes, every outcome that
  leaves the breaker closed leaves the rate rule kept exactly when every success recorded in
  `Closed` finds, among the outcomes that have not expired, too few failures for the rate or
  too few outcomes for it to count.
* `tenthSuccess_breaks`: the production settings, eight failures among nine outcomes, and
  a success that makes them ten.
-/

namespace SocialApi.Clients

open SocialApi.Concurrent SocialApi.SlidingWindow

/-- Fewer outcomes than `min_calls_for_rate` are no older than `rate_window` at `now`, or
    the fraction of failures among them is at most `failure_rate_threshold`. -/
def RateKept (config : CircuitBreakerConfig) (now : Instant) (outcomes : List CallRecord) : Prop :=
  let window := notOlder config now outcomes
  window.length < config.minCallsForRate ∨
    quotientAbove (window.filter fun r => !r.success).length window.length
      config.failureRateThreshold = false

instance (config : CircuitBreakerConfig) (now : Instant) (outcomes : List CallRecord) :
    Decidable (RateKept config now outcomes) := by
  unfold RateKept
  infer_instance

/-- The clock reading an outcome is recorded with. -/
def BreakerCall.recordedAt : BreakerCall → Option Instant
  | allowRequest _ => none
  | recordSuccess now => some now
  | recordFailure _ now' => some now'

/-- If the call records an outcome and leaves the breaker closed, the rate rule is kept by the
    outcomes recorded since it closed. A breaker that closes starts anew: `do_transition`
    clears the window "so stale failures don't re-trip". -/
def RateRule (config : CircuitBreakerConfig) (h : History) (call : BreakerCall) : Prop :=
  ∀ now, call.recordedAt = some now → (h.next config call).inner.state = .closed →
    RateKept config now (h.next config call).outcomes

/-- The outcomes in the window that are no older than `rate_window` at `now`. -/
def Inner.unexpired (config : CircuitBreakerConfig) (now : Instant) (inner : Inner) :
    List CallRecord :=
  inner.callWindow.filter fun r => now ≤ r.timestamp + config.rateWindow

/-- A success recorded in `Closed` finds a window whose unexpired outcomes, one more success
    counted, are fewer than `min_calls_for_rate` or have too few failures among them. -/
def QuietSuccess (config : CircuitBreakerConfig) (h : History) : BreakerCall → Prop
  | .recordSuccess now => h.inner.state = .closed →
    let unexpired := h.inner.unexpired config now
    unexpired.length + 1 < config.minCallsForRate ∨
      quotientAbove (unexpired.filter fun r => !r.success).length (unexpired.length + 1)
        config.failureRateThreshold = false
  | _ => True

/-- With the outcome the window of a closed breaker has fewer than 2 ^ 32 outcomes. -/
def RecordFits (config : CircuitBreakerConfig) (h : History) (call : BreakerCall) : Prop :=
  ∀ now, call.recordedAt = some now → h.inner.state = .closed →
    (h.inner.unexpired config now).length + 1 < 2 ^ 32

instance (config : CircuitBreakerConfig) (h : History) (call : BreakerCall) :
    Decidable (QuietSuccess config h call) :=
  match call with
  | .allowRequest _ => isTrue trivial
  | .recordSuccess now => inferInstanceAs (Decidable (h.inner.state = .closed →
      (h.inner.unexpired config now).length + 1 < config.minCallsForRate ∨
        quotientAbove ((h.inner.unexpired config now).filter fun r => !r.success).length
          ((h.inner.unexpired config now).length + 1) config.failureRateThreshold = false))
  | .recordFailure _ _ => isTrue trivial

instance (config : CircuitBreakerConfig) (h : History) (call : BreakerCall) :
    Decidable (RecordFits config h call) :=
  match call with
  | .allowRequest _ => isTrue fun _ hnow => nomatch hnow
  | .recordSuccess now => decidable_of_iff
      (h.inner.state = .closed → (h.inner.unexpired config now).length + 1 < 2 ^ 32)
      ⟨fun hfits _ hnow => Option.some.inj hnow ▸ hfits, fun hfits => hfits now rfl⟩
  | .recordFailure _ now' => decidable_of_iff
      (h.inner.state = .closed → (h.inner.unexpired config now').length + 1 < 2 ^ 32)
      ⟨fun hfits _ hnow => Option.some.inj hnow ▸ hfits, fun hfits => hfits now' rfl⟩

section Lemmas

variable {config : CircuitBreakerConfig} {h : History} {now now' : Instant}

/-- The window of a closed breaker holds the outcomes since it closed that were no older than
    `rate_window` when the last one was recorded. -/
structure Windowed (config : CircuitBreakerConfig) (h : History) : Prop where
  timed : Timed h
  window : h.inner.state = .closed → h.inner.callWindow = windowOf config h.outcomes

theorem windowed_new : Windowed config .new := ⟨timed_new, fun _ => rfl⟩

theorem rateKept_nil : RateKept config now [] := Or.inr rfl

/-- What has not expired is what has been recorded since the breaker closed and is no older than
    `rate_window`. -/
theorem unexpired_eq (hw : Windowed config h) (hst : h.inner.state = .closed)
    (hclock : h.clock ≤ now) : h.inner.unexpired config now = notOlder config now h.outcomes := by
  have hcut : ∀ l : List CallRecord, l.filter (fun r => now ≤ r.timestamp + config.rateWindow) =
      notOlder config now l := by
    intro l
    refine List.filter_congr fun r _ => decide_eq_decide.mpr ?_
    rw [sub_le_iff_le_add]
    show now ≤ r.timestamp + config.rateWindow ↔ (now : ℤ) ≤ (r.timestamp : ℤ) + config.rateWindow
    norm_cast
  rw [Inner.unexpired, hcut, hw.window hst]
  unfold windowOf
  cases hlast : h.outcomes.getLast? with
  | none =>
    rw [List.getLast?_eq_none_iff.mp hlast]
  | some r =>
    have hpast := hw.timed.past r (List.mem_of_getLast? hlast)
    exact recent_recent (sub_le_sub_right (by exact_mod_cast hpast.trans hclock) _)

/-- The outcome that is being recorded is the youngest. -/
theorem notOlder_append (outcomes : List CallRecord) (b : Bool) :
    notOlder config now (outcomes ++ [⟨now, b⟩]) = notOlder config now outcomes ++ [⟨now, b⟩] := by
  rw [notOlder, recent_append, recent_singleton (by simp)]
  rfl

/-- The rate rule after an outcome is recorded in `Closed`, in the counts before it. -/
theorem rateKept_append (hw : Windowed config h) (hst : h.inner.state = .closed)
    (hclock : h.clock ≤ now) (b : Bool) : RateKept config now (h.outcomes ++ [⟨now, b⟩]) ↔
      (h.inner.unexpired config now).length + 1 < config.minCallsForRate ∨
        quotientAbove (((h.inner.unexpired config now).filter fun r => !r.success).length +
          if b then 0 else 1) ((h.inner.unexpired config now).length + 1)
          config.failureRateThreshold = false := by
  unfold RateKept
  dsimp only
  rw [notOlder_append, unexpired_eq hw hst hclock, List.filter_append, List.length_append,
    List.length_append]
  cases b <;> rfl

/-- The code's rate check after an outcome is recorded in `Closed`. -/
theorem failureRateExceeded_pushCall (hw : Windowed config h) (hst : h.inner.state = .closed)
    (hclock : h.clock ≤ now) {b : Bool}
    (hfits : (h.inner.unexpired config now).length + 1 < 2 ^ 32) :
    CircuitBreaker.failureRateExceeded config (CircuitBreaker.pushCall config now b h.inner) =
      false ↔ RateKept config now (h.outcomes ++ [⟨now, b⟩]) := by
  have hpush := pushCall_window hw.timed (hw.window hst) hclock b
  rw [windowOf_append] at hpush
  have hlen : (CircuitBreaker.pushCall config now b h.inner).callWindow.length < 2 ^ 32 := by
    rw [hpush, notOlder_append, ← unexpired_eq hw hst hclock, List.length_append]
    exact hfits
  rw [failureRateExceeded_eq hlen, Bool.and_eq_false_iff, hpush, decide_eq_false_iff_not, not_le]
  rfl

theorem next_allowRequest (config : CircuitBreakerConfig) (now : Instant) {inner : Inner}
    {allowed : Bool} (hallow : CircuitBreaker.allowRequest config now h.inner = (inner, allowed)) :
    h.next config (.allowRequest now) =
      ⟨inner, now, h.failedAt, h.kept inner h.events ++ if allowed then [.admitted] else []⟩ := by
  simp only [History.next, hallow]

/-- What `allow_request` leaves closed it has not touched. -/
theorem Windowed.allowRequest (hw : Windowed config h) (hclock : h.clock ≤ now) :
    Windowed config (h.next config (.allowRequest now)) := by
  refine ⟨hw.timed.next hclock, fun hst => ?_⟩
  rcases CircuitBreaker.allowRequest_cases config now h.inner with
    ⟨hclosed, he⟩ | ⟨inner', he, hs, -⟩ | ⟨he, hs⟩
  · rw [next_allowRequest config now he, outcomes_allowRequest, if_pos rfl, if_pos rfl]
    exact hw.window hclosed
  · rw [next_allowRequest config now he] at hst
    cases hs.symm.trans hst
  · rw [next_allowRequest config now he] at hst
    rcases hs with ⟨hs, -⟩ | ⟨hs, -⟩ <;> cases hs.symm.trans hst

/-- A success leaves a breaker closed that was closed, or closes it and clears its window. -/
theorem recordSuccess_closed {inner : Inner}
    (hst : (CircuitBreaker.recordSuccess config now inner).state = .closed) :
    (inner.state = .closed ∧ (CircuitBreaker.recordSuccess config now inner).callWindow =
        (CircuitBreaker.pushCall config now true inner).callWindow) ∨
      (inner.state ≠ .closed ∧
        (CircuitBreaker.recordSuccess config now inner).callWindow = []) := by
  cases hs : inner.state with
  | closed =>
    rw [CircuitBreaker.recordSuccess_of_closed hs]
    exact Or.inl ⟨rfl, rfl⟩
  | halfOpen =>
    by_cases hlast : config.successThreshold ≤ inner.consecutiveSuccesses + 1
    · rw [CircuitBreaker.recordSuccess_of_last hs hlast]
      exact Or.inr ⟨by simp, rfl⟩
    · rw [CircuitBreaker.recordSuccess_of_halfOpen hs (not_le.mp hlast)] at hst
      cases hs.symm.trans hst
  | opened =>
    rw [CircuitBreaker.recordSuccess_of_opened hs] at hst
    cases hs.symm.trans hst

/-- A failure leaves only a breaker closed that was closed and whose rate it has looked at. -/
theorem recordFailure_closed {inner : Inner}
    (hst : (CircuitBreaker.recordFailure config now now' inner).state = .closed) :
    inner.state = .closed ∧ (CircuitBreaker.recordFailure config now now' inner).callWindow =
        (CircuitBreaker.pushCall config now' false inner).callWindow ∧
      CircuitBreaker.failureRateExceeded config
        (CircuitBreaker.pushCall config now' false inner) = false := by
  cases hs : inner.state with
  | closed =>
    by_cases htrip : config.failureThreshold ≤ inner.consecutiveFailures + 1 ∨
        CircuitBreaker.failureRateExceeded config
          (CircuitBreaker.pushCall config now' false inner) = true
    · rw [CircuitBreaker.recordFailure_of_trip hs htrip] at hst
      cases hst
    · rw [not_or, not_le, Bool.not_eq_true] at htrip
      rw [CircuitBreaker.recordFailure_of_closed hs htrip.1 htrip.2]
      exact ⟨rfl, rfl, htrip.2⟩
  | halfOpen =>
    rw [CircuitBreaker.recordFailure_of_halfOpen hs] at hst
    cases hst
  | opened =>
    rw [CircuitBreaker.recordFailure_of_opened hs] at hst
    cases hs.symm.trans hst

/-- Recording an outcome keeps the window; the outcomes since the breaker closed are one more, or
    none if it has closed now. -/
theorem Windowed.record (hw : Windowed config h) (hclock : h.clock ≤ now) {b : Bool}
    {inner : Inner} {failedAt : Option Instant} (hst : inner.state = .closed)
    (hcases : (h.inner.state = .closed ∧
        inner.callWindow = (CircuitBreaker.pushCall config now b h.inner).callWindow) ∨
      (h.inner.state ≠ .closed ∧ inner.callWindow = [])) {h' : History}
    (hh' : h' = ⟨inner, now, failedAt, h.kept inner (h.events ++ [.recorded ⟨now, b⟩])⟩) :
    inner.callWindow = windowOf config h'.outcomes ∧
      h'.outcomes = if h.inner.state = .closed then h.outcomes ++ [⟨now, b⟩] else [] := by
  have hout := outcomes_record h inner ⟨now, b⟩ now failedAt
  rw [← hh'] at hout
  rcases hcases with ⟨hclosed, hwindow⟩ | ⟨hopen, hwindow⟩
  · rw [if_pos (hst.trans hclosed.symm)] at hout
    rw [hout, hwindow, if_pos hclosed]
    exact ⟨pushCall_window hw.timed (hw.window hclosed) hclock b, rfl⟩
  · rw [if_neg fun hs => hopen (hs.symm.trans hst)] at hout
    rw [hout, hwindow, if_neg hopen]
    exact ⟨rfl, rfl⟩

/-- A success keeps the window, and the rate rule exactly if it is a quiet one. -/
theorem Windowed.recordSuccess (hw : Windowed config h) (hclock : h.clock ≤ now) :
    Windowed config (h.next config (.recordSuccess now)) ∧
      (RateRule config h (.recordSuccess now) ↔ QuietSuccess config h (.recordSuccess now)) := by
  have hrec := fun hst : (h.next config (.recordSuccess now)).inner.state = .closed =>
    hw.record hclock hst (recordSuccess_closed hst) (next_recordSuccess config now rfl)
  refine ⟨⟨hw.timed.next hclock, fun hst => (hrec hst).1⟩, fun hrule hclosed => ?_,
    fun hquiet now' hnow hst => ?_⟩
  · have hst : (h.next config (.recordSuccess now)).inner.state = .closed := by
      rw [next_recordSuccess config now (CircuitBreaker.recordSuccess_of_closed hclosed)]
      exact hclosed
    have hkept := hrule now rfl hst
    rw [(hrec hst).2, if_pos hclosed] at hkept
    exact (rateKept_append hw hclosed hclock true).mp hkept
  · cases hnow
    rw [(hrec hst).2]
    split_ifs with hclosed
    · exact (rateKept_append hw hclosed hclock true).mpr (hquiet hclosed)
    · exact rateKept_nil

/-- A failure keeps the window and the rate rule. -/
theorem Windowed.recordFailure (hw : Windowed config h) (hclock : h.clock ≤ now)
    (hnow : now ≤ now') (hfits : RecordFits config h (.recordFailure now now')) :
    Windowed config (h.next config (.recordFailure now now')) ∧
      RateRule config h (.recordFailure now now') := by
  have hlater := hclock.trans hnow
  have hrec := fun hst : (h.next config (.recordFailure now now')).inner.state = .closed =>
    hw.record hlater hst (Or.inl ⟨(recordFailure_closed hst).1, (recordFailure_closed hst).2.1⟩)
      (next_recordFailure config now now' rfl)
  refine ⟨⟨hw.timed.next ⟨hclock, hnow⟩, fun hst => (hrec hst).1⟩, fun t ht hst => ?_⟩
  cases ht
  obtain ⟨hclosed, -, hrate⟩ := recordFailure_closed hst
  rw [(hrec hst).2, if_pos hclosed]
  exact (failureRateExceeded_pushCall hw hclosed hlater (hfits now' rfl hclosed)).mp hrate

/-- One call: the window is kept, and the rate rule exactly if the call is no success that breaks
    it. -/
theorem Windowed.next {call : BreakerCall} (hw : Windowed config h) (hfrom : call.From h.clock)
    (hfits : RecordFits config h call) : Windowed config (h.next config call) ∧
      (RateRule config h call ↔ QuietSuccess config h call) := by
  cases call with
  | allowRequest now =>
    exact ⟨hw.allowRequest hfrom, fun _ => trivial, fun _ now hnow => by cases hnow⟩
  | recordSuccess now => exact hw.recordSuccess hfrom
  | recordFailure now now' =>
    obtain ⟨hnext, hrule⟩ := hw.recordFailure hfrom.1 hfrom.2 hfits
    exact ⟨hnext, fun _ => trivial, fun _ => hrule⟩

end Lemmas

/-! ## All runs -/

/-- In every run from a new breaker with non-decreasing clock readings and no window of 2 ^ 32
    outcomes, the rate rule is kept after every recorded outcome exactly when every success
    recorded in `Closed` finds too few unexpired outcomes or too few failures among them. -/
theorem rateRule_iff (config : CircuitBreakerConfig) {h : History} {calls : List BreakerCall}
    (hrun : (breakerMachine config).run .new calls = some h)
    (hfits : (breakerMachine config).Meets (RecordFits config) .new calls) :
    (breakerMachine config).Meets (RateRule config) .new calls ↔
      (breakerMachine config).Meets (QuietSuccess config) .new calls := by
  have hnext : ∀ h call h', Windowed config h → RecordFits config h call →
      (breakerMachine config).step h call = some h' →
      Windowed config h' ∧ (RateRule config h call ↔ QuietSuccess config h call) := by
    intro h call h' hw hfits hstep
    simp only [breakerMachine] at hstep
    split_ifs at hstep with hfrom
    cases hstep
    exact hw.next hfrom hfits
  constructor
  · intro hrule
    refine (hfits.and hrule).of_keeps (I := Windowed config) ?_ windowed_new hrun
    rintro h call h' hw ⟨hfits, hrule⟩ hstep
    obtain ⟨hw', hiff⟩ := hnext h call h' hw hfits hstep
    exact ⟨hw', hiff.mp hrule⟩
  · intro hquiet
    refine (hfits.and hquiet).of_keeps (I := Windowed config) ?_ windowed_new hrun
    rintro h call h' hw ⟨hfits, hquiet⟩ hstep
    obtain ⟨hw', hiff⟩ := hnext h call h' hw hfits hstep
    exact ⟨hw', hiff.mpr hquiet⟩

/-! ## A success that breaks the rule -/

/-- The settings of the production breakers (state.rs:226–236 with the defaults of config.rs). -/
def production : CircuitBreakerConfig where
  failureThreshold := 5
  recoveryTimeout := 30
  successThreshold := 3
  rateWindow := 30
  failureRateThreshold := 1 / 2
  minCallsForRate := 10

/-- Ten outcomes, five of them failures, then a success and one more failure: from the tenth on
    the rate counts, and it never exceeds one half. -/
def halfFailures : List BreakerCall :=
  [.recordFailure 1 1, .recordFailure 2 2, .recordSuccess 3, .recordFailure 4 4,
    .recordFailure 5 5, .recordSuccess 6, .recordFailure 7 7, .recordSuccess 8, .recordSuccess 9,
    .recordSuccess 10, .recordSuccess 11, .recordFailure 12 12]

/-- `rateRule_iff` for the run `halfFailures`, which ends in `Closed` with twelve outcomes. -/
theorem rateRule_iff_halfFailures :
    ((breakerMachine production).run .new halfFailures).map
      (fun h => (h.inner.state, h.inner.callWindow.length)) = some (.closed, 12) ∧
    (breakerMachine production).Meets (RateRule production) .new halfFailures := by
  have hview : ((breakerMachine production).run .new halfFailures).map
      (fun h => (h.inner.state, h.inner.callWindow.length)) = some (.closed, 12) := by
    decide +kernel
  have hfits : (breakerMachine production).meetsAll
      (fun h call => decide (RecordFits production h call)) .new halfFailures = true := by
    decide +kernel
  have hquiet : (breakerMachine production).meetsAll
      (fun h call => decide (QuietSuccess production h call)) .new halfFailures = true := by
    decide +kernel
  obtain ⟨h, hrun, -⟩ := Option.map_eq_some_iff.mp hview
  refine ⟨hview, (rateRule_iff production hrun ?_).mpr ?_⟩
  · exact Machine.meets_of_meetsAll (fun h call hc => of_decide_eq_true hc) hfits
  · exact Machine.meets_of_meetsAll (fun h call hc => of_decide_eq_true hc) hquiet

/-- Four failures, a success, and four failures more: too few outcomes for the rate to count
    and never five failures in a row. -/
def eightOfNine : List BreakerCall :=
  [.recordFailure 1 1, .recordFailure 2 2, .recordFailure 3 3, .recordFailure 4 4,
    .recordSuccess 5, .recordFailure 6 6, .recordFailure 7 7, .recordFailure 8 8,
    .recordFailure 9 9]

/-- With the tenth outcome, a success, the rate counts, and it is 80 percent. The breaker
    stays closed. -/
theorem tenthSuccess_breaks : ∃ h, (breakerMachine production).run .new eightOfNine = some h ∧
    BreakerCall.From h.clock (.recordSuccess 10) ∧
    ¬ RateRule production h (.recordSuccess 10) := by
  have hview : ((breakerMachine production).run .new eightOfNine).map (fun h =>
      (decide (BreakerCall.From h.clock (.recordSuccess 10)),
        decide ((h.next production (.recordSuccess 10)).inner.state = .closed),
        decide (RateKept production 10 (h.next production (.recordSuccess 10)).outcomes))) =
      some (true, true, false) := by decide +kernel
  obtain ⟨h, hrun, hbroken⟩ := Option.map_eq_some_iff.mp hview
  simp only [Prod.mk.injEq, decide_eq_true_eq, decide_eq_false_iff_not] at hbroken
  exact ⟨h, hrun, hbroken.1, fun hrule => hbroken.2.2 (hrule 10 rfl hbroken.2.1)⟩

end SocialApi.Clients
