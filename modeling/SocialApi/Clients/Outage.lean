import SocialApi.Clients.BreakerHistory

/-!
# What an outage lets through

Once the breaker is open, and for as long as no success is recorded, it admits one request for
each `recovery_timeout`, whoever asks and whatever is recorded late by requests that were
admitted before it opened: an admission takes the probe slot, only a recorded outcome gives it
back, and a failure starts the timeout anew.

* `Waits`: an open breaker knows a failure no earlier than its last admission, and a recovering
  one has its slot taken; every call but a success keeps it.
* `admissions_apart`: the admissions are `recovery_timeout` apart, the first one from the failure
  on that opened the breaker, so that their number is bounded by the time that passes.
-/

namespace SocialApi.Clients

open SocialApi.Concurrent

/-! ## Admissions -/

/-- The time of the call, if it is admitted. -/
def admission (config : CircuitBreakerConfig) (h : History) : BreakerCall → List Instant
  | .allowRequest now => if (CircuitBreaker.allowRequest config now h.inner).2 then [now] else []
  | .recordSuccess _ => []
  | .recordFailure _ _ => []

/-- When the calls of a run are admitted. -/
def admissions (config : CircuitBreakerConfig) : History → List BreakerCall → List Instant
  | _, [] => []
  | h, call :: calls => admission config h call ++ admissions config (h.next config call) calls

/-- The times are at least `d` apart. -/
def Apart (d : ℕ) (times : List ℕ) : Prop :=
  times.IsChain fun a b => a + d ≤ b

/-- Times that are `d` apart take `d` each. -/
theorem length_mul_le_of_apart {d t now : ℕ} {times : List ℕ}
    (h : Apart d (t :: times)) (hnow : ∀ a ∈ t :: times, a ≤ now) :
    t + times.length * d ≤ now := by
  induction times generalizing t with
  | nil => simpa using hnow t List.mem_cons_self
  | cons a times ih =>
    obtain ⟨hta, hrest⟩ := List.isChain_cons_cons.mp h
    have hlast := ih hrest fun b hb => hnow b (List.mem_cons_of_mem _ hb)
    rw [List.length_cons, Nat.succ_mul]
    omega

/-! ## While nothing succeeds -/

/-- Since `last` no request has been admitted that may not be waiting still: an open breaker has
    seen a failure since, and a recovering one has its probe slot taken. -/
structure Waits (last : Instant) (h : History) : Prop where
  past : last ≤ h.clock
  notClosed : h.inner.state ≠ .closed
  opened : h.inner.state = .opened →
    ∃ t, h.inner.lastFailureTime = some t ∧ last ≤ t ∧ t ≤ h.clock
  halfOpen : h.inner.state = .halfOpen → h.inner.probeInFlight = true

section Steps

variable {config : CircuitBreakerConfig} {h : History} {last now now' : Instant}

theorem next_of_rejected (hr : CircuitBreaker.allowRequest config now h.inner = (h.inner, false)) :
    (h.next config (.allowRequest now)).inner = h.inner ∧
      (h.next config (.allowRequest now)).clock = now ∧
      admission config h (.allowRequest now) = [] := by
  simp [History.next, admission, hr]

/-- A request is rejected, or it is admitted `recovery_timeout` after the last one. -/
theorem Waits.allowRequest (hw : Waits last h) (hclock : h.clock ≤ now) :
    (admission config h (.allowRequest now) = [] ∧ Waits last (h.next config (.allowRequest now))) ∨
      (admission config h (.allowRequest now) = [now] ∧ last + config.recoveryTimeout ≤ now ∧
        Waits now (h.next config (.allowRequest now))) := by
  cases hs : h.inner.state with
  | closed => exact absurd hs hw.notClosed
  | halfOpen =>
    have hr : CircuitBreaker.allowRequest config now h.inner = (h.inner, false) :=
      CircuitBreaker.allowRequest_of_taken hs (hw.halfOpen hs)
    obtain ⟨hinner, htime, hnone⟩ := next_of_rejected hr
    refine Or.inl ⟨hnone, ?_⟩
    constructor
    · rw [htime]
      exact hw.past.trans hclock
    · rw [hinner]
      exact hw.notClosed
    · intro ho
      rw [hinner, hs] at ho
      cases ho
    · rw [hinner]
      exact hw.halfOpen
  | opened =>
    obtain ⟨t, hfailed, hlast, ht⟩ := hw.opened hs
    cases helapsed : CircuitBreaker.recoveryElapsed config now h.inner with
    | false =>
      obtain ⟨hinner, htime, hnone⟩ :=
        next_of_rejected (CircuitBreaker.allowRequest_of_opened hs helapsed)
      refine Or.inl ⟨hnone, ?_⟩
      constructor
      · rw [htime]
        exact hw.past.trans hclock
      · rw [hinner]
        exact hw.notClosed
      · intro _
        rw [hinner, htime]
        exact ⟨t, hfailed, hlast, ht.trans hclock⟩
      · intro ho
        rw [hinner, hs] at ho
        cases ho
    | true =>
      have hadmit : CircuitBreaker.allowRequest config now h.inner = _ :=
        CircuitBreaker.allowRequest_of_recovered hs helapsed
      have hpassed : config.recoveryTimeout ≤ now - t := by
        simpa [CircuitBreaker.recoveryElapsed, hfailed] using helapsed
      have happart : last + config.recoveryTimeout ≤ now :=
        (Nat.add_le_add hlast hpassed).trans (Nat.add_sub_cancel' (ht.trans hclock)).le
      refine Or.inr ⟨by simp [admission, hadmit], happart, ?_⟩
      constructor
      · simp [History.next]
      · simp [History.next, hadmit]
      · intro ho
        simp [History.next, hadmit] at ho
      · intro _
        simp [History.next, hadmit]

/-- A failure opens the breaker, or keeps it open, and starts the timeout anew. -/
theorem Waits.recordFailure (hw : Waits last h) (hclock : h.clock ≤ now) (hnow : now ≤ now') :
    Waits last (h.next config (.recordFailure now now')) := by
  have hopened : (CircuitBreaker.recordFailure config now now' h.inner).state = .opened := by
    cases hs : h.inner.state with
    | closed => exact absurd hs hw.notClosed
    | halfOpen => simp [CircuitBreaker.recordFailure, hs]
    | opened => simp [CircuitBreaker.recordFailure, hs]
  obtain ⟨-, hfailed, -⟩ := CircuitBreaker.recordFailure_state config now now' h.inner
  have hlast : last ≤ now := hw.past.trans hclock
  constructor
  · show last ≤ now'
    exact hlast.trans hnow
  · show (CircuitBreaker.recordFailure config now now' h.inner).state ≠ .closed
    rw [hopened]
    simp
  · intro _
    exact ⟨now, hfailed, hlast, hnow⟩
  · intro ho
    rw [show (CircuitBreaker.recordFailure config now now' h.inner).state = .halfOpen from ho]
      at hopened
    cases hopened

end Steps

/-- From a breaker that waits on, every admission is `recovery_timeout` after the one before. -/
theorem apart_of_waits {config : CircuitBreakerConfig} {h h' : History} {calls : List BreakerCall}
    {last : Instant} (hw : Waits last h)
    (hrun : (breakerMachine config).run h calls = some h')
    (hdown : ∀ now, .recordSuccess now ∉ calls) :
    Apart config.recoveryTimeout (last :: admissions config h calls) ∧
      (∀ a ∈ last :: admissions config h calls, a ≤ h'.clock) ∧ h'.inner.state ≠ .closed := by
  induction calls generalizing h last with
  | nil =>
    cases hrun
    refine ⟨List.isChain_singleton _, ?_, hw.notClosed⟩
    intro a ha
    rw [List.mem_singleton.mp ha]
    exact hw.past
  | cons call calls ih =>
    obtain ⟨h₁, hstep, hrest⟩ := (Machine.run_cons _).mp hrun
    simp only [breakerMachine] at hstep
    split_ifs at hstep with hfrom
    cases hstep
    have hlater : ∀ now, .recordSuccess now ∉ calls := fun now hmem =>
      hdown now (List.mem_cons_of_mem _ hmem)
    cases call with
    | recordSuccess now => exact absurd List.mem_cons_self (hdown now)
    | recordFailure now now' => exact ih (hw.recordFailure hfrom.1 hfrom.2) hrest hlater
    | allowRequest now =>
      rcases @Waits.allowRequest config h last now hw hfrom with
        ⟨hnone, hw'⟩ | ⟨hsome, happart, hw'⟩
      · have hafter := ih hw' hrest hlater
        simpa only [admissions, hnone, List.nil_append] using hafter
      · obtain ⟨hchain, hbefore, hstate⟩ := ih hw' hrest hlater
        simp only [admissions, hsome, List.singleton_append]
        refine ⟨List.isChain_cons_cons.mpr ⟨happart, hchain⟩, ?_, hstate⟩
        intro a ha
        rcases List.mem_cons.mp ha with rfl | ha
        · calc a ≤ a + config.recoveryTimeout := Nat.le_add_right _ _
            _ ≤ now := happart
            _ ≤ h'.clock := hbefore now List.mem_cons_self
        · exact hbefore a ha

/-- An open breaker knows when it last failed, and that time has passed. -/
theorem failed_of_reachable {config : CircuitBreakerConfig} {h : History}
    (hreach : (breakerMachine config).Reachable h) :
    h.inner.Ok ∧ ∀ t, h.inner.lastFailureTime = some t → t ≤ h.clock := by
  refine hreach.invariant (I := fun h => h.inner.Ok ∧
    ∀ t, h.inner.lastFailureTime = some t → t ≤ h.clock) (fun h hh => ?_)
    fun h call h' hinv hstep => ?_
  · rw [show h = .new from hh]
    exact ⟨CircuitBreaker.ok_new, fun t ht => by cases ht⟩
  · simp only [breakerMachine] at hstep
    split_ifs at hstep with hfrom
    cases hstep
    obtain ⟨hok, hfailed⟩ := hinv
    cases call with
    | allowRequest now =>
      refine ⟨CircuitBreaker.ok_allowRequest hok, ?_⟩
      intro t ht
      refine (hfailed t ?_).trans hfrom
      rcases CircuitBreaker.allowRequest_cases config now h.inner with
        ⟨-, he⟩ | ⟨inner', he, -, -, hlast, -⟩ | ⟨he, -⟩
      · simpa [History.next, he] using ht
      · simpa [History.next, he, hlast] using ht
      · simpa [History.next, he] using ht
    | recordSuccess now =>
      refine ⟨CircuitBreaker.ok_recordSuccess hok, ?_⟩
      intro t ht
      obtain ⟨-, hlast, -⟩ := CircuitBreaker.recordSuccess_state config now h.inner
      exact (hfailed t (hlast.symm.trans ht)).trans hfrom
    | recordFailure now now' =>
      refine ⟨CircuitBreaker.ok_recordFailure, ?_⟩
      intro t ht
      obtain ⟨-, hlast, -⟩ := CircuitBreaker.recordFailure_state config now now' h.inner
      rw [Option.some.inj (ht.symm.trans hlast)]
      exact hfrom.2

/-- In every run of calls on a breaker with non-decreasing clock readings, from an open breaker on
    and for as long as no success is recorded: the breaker does not close, its admissions are at
    least `recovery_timeout` apart and the first one that long after the last failure, and so
    there is time for every one of them. -/
theorem admissions_apart {config : CircuitBreakerConfig} {h h' : History}
    {calls : List BreakerCall} (hreach : (breakerMachine config).Reachable h)
    (hopened : h.inner.state = .opened) (hrun : (breakerMachine config).run h calls = some h')
    (hdown : ∀ now, .recordSuccess now ∉ calls) :
    h'.inner.state ≠ .closed ∧ ∃ t, h.inner.lastFailureTime = some t ∧
      Apart config.recoveryTimeout (t :: admissions config h calls) ∧
      t + (admissions config h calls).length * config.recoveryTimeout ≤ h'.clock := by
  obtain ⟨hok, hpast⟩ := failed_of_reachable hreach
  obtain ⟨t, ht⟩ := hok.failed hopened
  have hw : Waits t h := by
    refine ⟨hpast t ht, ?_, fun _ => ⟨t, ht, le_refl t, hpast t ht⟩, ?_⟩
    · rw [hopened]
      simp
    · intro hs
      rw [hopened] at hs
      cases hs
  obtain ⟨hchain, hbefore, hstate⟩ := apart_of_waits hw hrun hdown
  exact ⟨hstate, t, ht, hchain, length_mul_le_of_apart hchain hbefore⟩

/-- Two requests that were admitted early fail late, one of them while a probe is under way. -/
def lateFailures : List BreakerCall :=
  [.allowRequest 13, .allowRequest 14, .recordFailure 15 15, .allowRequest 20, .allowRequest 25,
    .recordFailure 26 27, .allowRequest 40]

theorem admissions_apart_lateFailures :
    ∃ h h', (breakerMachine touchy).run .new [.allowRequest 1, .recordFailure 3 3] = some h ∧
      (breakerMachine touchy).run h lateFailures = some h' ∧
      admissions touchy h lateFailures = [13, 25, 40] ∧ h'.inner.state ≠ .closed ∧
      Apart 10 [3, 13, 25, 40] := by
  have hview : ((breakerMachine touchy).run .new [.allowRequest 1, .recordFailure 3 3]).any
      (fun h => decide (h.inner.state = .opened ∧ h.inner.lastFailureTime = some 3 ∧
        admissions touchy h lateFailures = [13, 25, 40]) &&
        ((breakerMachine touchy).run h lateFailures).isSome) = true := by
    decide +kernel
  obtain ⟨h, hrun, hh⟩ := (Option.any_eq_true _ _).mp hview
  rw [Bool.and_eq_true, decide_eq_true_eq] at hh
  obtain ⟨⟨hopened, hfailed, hadmitted⟩, hlast⟩ := hh
  obtain ⟨h', hrun'⟩ := Option.isSome_iff_exists.mp hlast
  obtain ⟨hstate, t, ht, hchain, -⟩ := admissions_apart ⟨.new, _, rfl, hrun⟩ hopened hrun'
    (by simp [lateFailures])
  obtain rfl := Option.some.inj (ht.symm.trans hfailed)
  rw [hadmitted] at hchain
  exact ⟨h, h', hrun, hrun', hadmitted, hstate, hchain⟩

end SocialApi.Clients
