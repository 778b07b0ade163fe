import SocialApi.Auth

/-!
# Answers from the cache and the profile breaker

`authenticate_token` records a success whenever its validator succeeds, also when the
answer comes from the cache and the Profile API has not been asked. During an outage
such successes interrupt the run of failures that would open the breaker. The content
path was changed not to signal cache hits (like_commands.rs:199–233); this path does.

* `remoteFailuresOpen_iff`: along a run the breaker has left `Closed` once
  `failure_threshold` remote calls have failed with no success among them, and answers
  from the cache leave its counters and its window alone, exactly when such answers are
  recorded only while the breaker is open and counts no failure.
* `outage_masked`: a run in which five remote calls fail in a row and the breaker is
  still closed.
-/

namespace SocialApi.Auth

open SocialApi.Concurrent SocialApi.Clients

variable {ι : Type} [DecidableEq ι]

/-- Authentications and their history, which no outcome depends on. -/
structure Observed (ι : Type) where
  auth : AuthState
  /-- The requests that have called the Profile API. -/
  contacted : ι → Bool
  /-- The remote calls that were recorded as failed since one was last recorded as
      successful. -/
  failures : ℕ
  /-- A validation answered from the cache has changed the counters or the window. -/
  touched : Bool

/-- The counters or the window have changed. -/
def countersChanged (inner inner' : Inner) : Bool :=
  decide (inner'.consecutiveFailures ≠ inner.consecutiveFailures) ||
    decide (inner'.consecutiveSuccesses ≠ inner.consecutiveSuccesses) ||
    decide (inner'.callWindow ≠ inner.callWindow)

/-- What is noted of an operation of request `i` that led to `auth`. -/
def Observed.note (s : Observed ι) (i : ι) (auth : AuthState) : AuthOp → Observed ι
  | .send _ => { s with auth := auth, contacted := Function.update s.contacted i true }
  | .validateToken _ => { s with auth := auth, contacted := Function.update s.contacted i true }
  | .recordSuccess =>
    if s.contacted i then { s with auth := auth, failures := 0 }
    else { s with auth := auth, touched := s.touched || countersChanged s.auth.breaker auth.breaker }
  | .recordFailure =>
    { s with auth := auth, failures := if s.contacted i then s.failures + 1 else s.failures }
  | _ => { s with auth := auth }

/-- Authentications that start with a closed breaker and any cache. -/
def observedAuthentications (config : CircuitBreakerConfig) (U : UserCodec) (ttlSecs : ℕ) :
    Pool ι (Observed ι) (Transport × String) AuthOp AuthOp.Ans
      (Except AuthFailure AuthenticatedUser) AuthChoice where
  init s := s.auth.breaker.state = .closed ∧ s.failures = 0 ∧ s.touched = false
  prog k := authenticateToken U ttlSecs k.1 k.2
  start s i _ := some { s with contacted := Function.update s.contacted i false }
  handle s i o x := (handle config s.auth o x).map fun r => (s.note i r.1 o, r.2)
  drop s _ := some s
  env s x := (evict s.auth x).map fun auth => { s with auth := auth }

/-- A configuration of authentications with their history. -/
abbrev ObservedConfig (ι : Type) :=
  Configuration ι (Observed ι) (Transport × String) AuthOp AuthOp.Ans
    (Except AuthFailure AuthenticatedUser)

/-- Failed remote calls open the breaker, and answers from the cache do not touch what it
    counts. -/
structure RemoteFailuresOpen (config : CircuitBreakerConfig) (c : ObservedConfig ι) : Prop where
  opened : 0 < c.shared.failures → config.failureThreshold ≤ c.shared.failures →
    c.shared.auth.breaker.state ≠ .closed
  untouched : c.shared.touched = false

/-- A success answered from the cache is recorded only while the breaker is open and counts no
    failure. -/
def CachedWhileOpen (c : ObservedConfig ι) (a : Act ι (Transport × String) AuthChoice) : Prop :=
  ∀ i x k f, a = .step i x → c.calls i = .running k (.op .recordSuccess f) →
    c.shared.contacted i = false →
    c.shared.auth.breaker.state = .opened ∧ c.shared.auth.breaker.consecutiveFailures = 0

/-! ## What the breaker counts -/

section Counters

variable {config : CircuitBreakerConfig} {now now' : Instant} {inner : Inner}

/-- Recording an outcome changes the window: one more entry is not older than the cutoff. -/
theorem pushCall_changes (success : Bool) :
    (CircuitBreaker.pushCall config now success inner).callWindow ≠ inner.callWindow := by
  intro heq
  let old : CallRecord → Bool := fun r => r.timestamp + config.rateWindow < now
  have hpush : inner.callWindow.dropWhile old ++ [⟨now, success⟩] = inner.callWindow := heq
  have hnew : old ⟨now, success⟩ = false := by simp [old]
  have hprefix : (inner.callWindow.takeWhile old).countP (fun r => !old r) = 0 := by
    refine List.countP_eq_zero.mpr fun r hr => ?_
    simp [List.mem_takeWhile_imp hr]
  have hsplit := congrArg (List.countP fun r => !old r)
    (List.takeWhile_append_dropWhile (p := old) (l := inner.callWindow))
  have hlast := congrArg (List.countP fun r => !old r) hpush
  rw [List.countP_append, hprefix] at hsplit
  rw [List.countP_append, List.countP_singleton, hnew] at hlast
  simp only [Bool.not_false, if_true] at hlast
  omega

theorem pushCall_ne_nil (success : Bool) :
    (CircuitBreaker.pushCall config now success inner).callWindow ≠ [] := by
  simp [CircuitBreaker.pushCall]

/-- A success changes nothing that is counted exactly when the breaker is open and counts no
    failure. -/
theorem countersChanged_recordSuccess (hw : inner.state ≠ .closed → inner.callWindow ≠ []) :
    countersChanged inner (CircuitBreaker.recordSuccess config now inner) = false ↔
      inner.state = .opened ∧ inner.consecutiveFailures = 0 := by
  unfold countersChanged
  cases hs : inner.state with
  | closed =>
    rw [CircuitBreaker.recordSuccess_of_closed hs]
    simp [pushCall_changes]
  | halfOpen =>
    by_cases hn : config.successThreshold ≤ inner.consecutiveSuccesses + 1
    · rw [CircuitBreaker.recordSuccess_of_last hs hn]
      simp [(hw (by simp [hs])).symm]
    · rw [CircuitBreaker.recordSuccess_of_halfOpen hs (not_le.mp hn)]
      simp
  | opened =>
    rw [CircuitBreaker.recordSuccess_of_opened hs]
    simp only [ne_eq, not_true_eq_false, decide_false, Bool.or_false, decide_eq_false_iff_not,
      not_not, true_and]
    exact eq_comm

end Counters

/-! ## The invariant -/

/-- The breaker counts the remote failures, and has an outcome in its window unless it is
    closed. -/
structure Counting (config : CircuitBreakerConfig) (s : Observed ι) : Prop where
  counted : s.auth.breaker.state = .closed →
    s.failures ≤ s.auth.breaker.consecutiveFailures ∧
      (0 < s.failures → s.auth.breaker.consecutiveFailures < config.failureThreshold)
  window : s.auth.breaker.state ≠ .closed → s.auth.breaker.callWindow ≠ []
  untouched : s.touched = false

section Invariant

variable {ι : Type} {config : CircuitBreakerConfig} {s : Observed ι} {now now' : Instant}

theorem Counting.allowRequest (h : Counting config s) :
    Counting config { s with auth := { s.auth with
      breaker := (CircuitBreaker.allowRequest config now s.auth.breaker).1 } } := by
  cases hs : s.auth.breaker.state with
  | closed =>
    rw [CircuitBreaker.allowRequest_of_closed hs]
    exact h
  | halfOpen =>
    have hw := h.window (by simp [hs])
    cases hp : s.auth.breaker.probeInFlight with
    | false =>
      rw [CircuitBreaker.allowRequest_of_probe hs hp]
      exact ⟨fun hc => (by cases hs.symm.trans hc), fun _ => hw, h.untouched⟩
    | true =>
      rw [CircuitBreaker.allowRequest_of_taken hs hp]
      exact h
  | opened =>
    have hw := h.window (by simp [hs])
    cases hr : CircuitBreaker.recoveryElapsed config now s.auth.breaker with
    | true =>
      rw [CircuitBreaker.allowRequest_of_recovered hs hr]
      exact ⟨fun hc => (by cases hc), fun _ => hw, h.untouched⟩
    | false =>
      rw [CircuitBreaker.allowRequest_of_opened hs hr]
      exact h

/-- A success of the Profile API starts the count anew. -/
theorem Counting.remoteSuccess (h : Counting config s) :
    Counting config { s with
      auth := { s.auth with breaker := CircuitBreaker.recordSuccess config now s.auth.breaker },
      failures := 0 } := by
  refine ⟨fun _ => ⟨Nat.zero_le _, fun hpos => absurd hpos (lt_irrefl 0)⟩, fun hne => ?_,
    h.untouched⟩
  show (CircuitBreaker.recordSuccess config now s.auth.breaker).callWindow ≠ []
  have hne : (CircuitBreaker.recordSuccess config now s.auth.breaker).state ≠ .closed := hne
  cases hs : s.auth.breaker.state with
  | closed =>
    rw [CircuitBreaker.recordSuccess_of_closed hs]
    exact pushCall_ne_nil _
  | halfOpen =>
    by_cases hn : config.successThreshold ≤ s.auth.breaker.consecutiveSuccesses + 1
    · rw [CircuitBreaker.recordSuccess_of_last hs hn] at hne
      exact absurd rfl hne
    · rw [CircuitBreaker.recordSuccess_of_halfOpen hs (not_le.mp hn)]
      exact pushCall_ne_nil _
  | opened =>
    rw [CircuitBreaker.recordSuccess_of_opened hs]
    exact h.window (by simp [hs])

/-- A success answered from the cache changes nothing while the breaker is open and counts no
    failure. -/
theorem Counting.cachedSuccess (h : Counting config s) (hopen : s.auth.breaker.state = .opened)
    (hzero : s.auth.breaker.consecutiveFailures = 0) :
    Counting config { s with
      auth := { s.auth with breaker := CircuitBreaker.recordSuccess config now s.auth.breaker },
      touched := s.touched ||
        countersChanged s.auth.breaker (CircuitBreaker.recordSuccess config now s.auth.breaker) } := by
  rw [(countersChanged_recordSuccess h.window).mpr ⟨hopen, hzero⟩,
    CircuitBreaker.recordSuccess_of_opened hopen, Bool.or_false]
  exact ⟨fun hc => (by cases hopen.symm.trans hc), fun _ => h.window (by simp [hopen]), h.untouched⟩

/-- A failure is counted, or opens the breaker. -/
theorem Counting.failure (h : Counting config s) {failures : ℕ}
    (hf : failures ≤ s.failures + 1) :
    Counting config { s with
      auth := { s.auth with breaker := CircuitBreaker.recordFailure config now now' s.auth.breaker },
      failures := failures } := by
  cases hs : s.auth.breaker.state with
  | closed =>
    obtain ⟨hle, -⟩ := h.counted hs
    by_cases htrip : config.failureThreshold ≤ s.auth.breaker.consecutiveFailures + 1 ∨
        CircuitBreaker.failureRateExceeded config
          (CircuitBreaker.pushCall config now' false s.auth.breaker) = true
    · rw [CircuitBreaker.recordFailure_of_trip hs htrip]
      exact ⟨fun hc => (by cases hc), fun _ => pushCall_ne_nil _, h.untouched⟩
    · rw [not_or, not_le, Bool.not_eq_true] at htrip
      rw [CircuitBreaker.recordFailure_of_closed hs htrip.1 htrip.2]
      refine ⟨fun _ => ⟨?_, fun _ => htrip.1⟩, fun _ => pushCall_ne_nil _, h.untouched⟩
      exact hf.trans (Nat.succ_le_succ hle)
  | halfOpen =>
    rw [CircuitBreaker.recordFailure_of_halfOpen hs]
    exact ⟨fun hc => (by cases hc), fun _ => pushCall_ne_nil _, h.untouched⟩
  | opened =>
    rw [CircuitBreaker.recordFailure_of_opened hs]
    exact ⟨fun hc => (by cases hs.symm.trans hc), fun _ => h.window (by simp [hs]), h.untouched⟩

/-- An operation that does not record an outcome of the breaker. -/
theorem Counting.same (h : Counting config s) {s' : Observed ι}
    (hbreaker : s'.auth.breaker = s.auth.breaker) (hfailures : s'.failures = s.failures)
    (htouched : s'.touched = s.touched) : Counting config s' where
  counted hc := by
    rw [hbreaker] at hc ⊢
    rw [hfailures]
    exact h.counted hc
  window hc := by
    rw [hbreaker] at hc ⊢
    exact h.window hc
  untouched := htouched.trans h.untouched

end Invariant

section Steps

variable {config : CircuitBreakerConfig} {U : UserCodec} {ttlSecs : ℕ}

/-- One operation of a request. -/
theorem Counting.handle {s : Observed ι} {i : ι} {o : AuthOp} {x : AuthChoice} {auth : AuthState}
    {r : o.Ans} (h : Counting config s)
    (hcached : o = .recordSuccess → s.contacted i = false →
      s.auth.breaker.state = .opened ∧ s.auth.breaker.consecutiveFailures = 0)
    (hs : Auth.handle config s.auth o x = some (auth, r)) : Counting config (s.note i auth o) := by
  cases o with
  | allowRequest =>
    cases x with
    | clock now now' => cases hs; exact h.allowRequest
    | _ => cases hs
  | recordSuccess =>
    cases x with
    | clock now now' =>
      cases hs
      unfold Observed.note
      dsimp only
      split_ifs with hc
      · exact h.remoteSuccess
      · obtain ⟨hopen, hzero⟩ := hcached rfl (by simpa using hc)
        exact h.cachedSuccess hopen hzero
    | _ => cases hs
  | recordFailure =>
    cases x with
    | clock now now' =>
      cases hs
      refine h.failure ?_
      split_ifs <;> omega
    | _ => cases hs
  | cache o =>
    cases x with
    | cache x =>
      obtain ⟨sr, -, he⟩ := Option.map_eq_some_iff.mp hs
      cases he
      exact h.same rfl rfl rfl
    | _ => cases hs
  | send token =>
    cases x with
    | sent status => cases hs; exact h.same rfl rfl rfl
    | _ => cases hs
  | json =>
    cases x with
    | body result => cases hs; exact h.same rfl rfl rfl
    | _ => cases hs
  | validateToken token =>
    cases x with
    | rpc outcome => cases hs; exact h.same rfl rfl rfl
    | _ => cases hs

theorem Counting.step {c c' : ObservedConfig ι} {a : Act ι (Transport × String) AuthChoice}
    (h : Counting config c.shared) (hcached : CachedWhileOpen c a)
    (hstep : (observedAuthentications config U ttlSecs).machine.step c a = some c') :
    Counting config c'.shared := by
  rcases Pool.act_cases hstep with ⟨i, k, s, rfl, hi, hs, rfl⟩ |
    ⟨i, x, k, o, f, s, r, rfl, hi, hs, rfl⟩ | ⟨i, k, p, s, rfl, hi, hs, rfl⟩ | ⟨x, s, rfl, hs, rfl⟩
  · cases hs
    exact h.same rfl rfl rfl
  · obtain ⟨⟨auth, r'⟩, hauth, he⟩ := Option.map_eq_some_iff.mp hs
    cases he
    exact h.handle (fun ho hc => by subst ho; exact hcached i x k f rfl hi hc) hauth
  · cases hs
    exact h
  · obtain ⟨auth, hauth, rfl⟩ := Option.map_eq_some_iff.mp hs
    cases x with
    | evict layer key => cases hauth; exact h.same rfl rfl rfl
    | _ => cases hauth

end Steps

/-- Along a run of authentications the breaker has left `Closed` once `failure_threshold`
    remote calls have failed with no success among them, and answers from the cache change
    nothing it counts, exactly when these are recorded only while the breaker is open and
    counts no failure. -/
theorem remoteFailuresOpen_iff {config : CircuitBreakerConfig} {U : UserCodec} {ttlSecs : ℕ}
    {c c' : ObservedConfig ι} {as : List (Act ι (Transport × String) AuthChoice)}
    (hc : (observedAuthentications config U ttlSecs).machine.init c)
    (hrun : (observedAuthentications config U ttlSecs).machine.run c as = some c') :
    (observedAuthentications config U ttlSecs).machine.Along (RemoteFailuresOpen config) c as ↔
      (observedAuthentications config U ttlSecs).machine.Meets CachedWhileOpen c as := by
  have hinit : Counting config c.shared := by
    obtain ⟨⟨hclosed, hfailures, htouched⟩, -⟩ := hc
    refine ⟨fun _ => ?_, fun hne => absurd hclosed hne, htouched⟩
    rw [hfailures]
    exact ⟨Nat.zero_le _, fun hpos => absurd hpos (lt_irrefl 0)⟩
  refine Machine.along_iff_meets (I := fun c => Counting config c.shared)
    (fun c a c' h ha hstep => h.step ha hstep) (fun c h => ?_) (fun c a c' h ha hstep hopen => ?_)
    hinit hrun
  · refine ⟨fun hpos hle hclosed => ?_, h.untouched⟩
    obtain ⟨hcount, hlt⟩ := h.counted hclosed
    have hlt := hlt hpos
    omega
  · -- the answer from the cache has changed what the breaker counts
    simp only [CachedWhileOpen, not_forall] at ha
    obtain ⟨i, x, k, f, rfl, hi, hcontacted, hnot⟩ := ha
    obtain ⟨s, r, hs, rfl⟩ := Pool.act_step hstep hi
    obtain ⟨⟨auth, r'⟩, hauth, he⟩ := Option.map_eq_some_iff.mp hs
    cases he
    cases x with
    | clock now now' =>
      cases hauth
      have hchanged : countersChanged c.shared.auth.breaker
          (CircuitBreaker.recordSuccess config now c.shared.auth.breaker) = true := by
        rw [← Bool.not_eq_false, countersChanged_recordSuccess h.window]
        exact hnot
      have htouched := hopen.untouched
      simp [Observed.note, hcontacted, hchanged] at htouched
    | _ => cases hauth

/-! ## Two runs -/

/-- A codec for runs with one user. -/
def oneUser : UserCodec :=
  ⟨fun _ => some "\x7b\x7d", fun s => if s = "\x7b\x7d" then some ⟨1, "Ann"⟩ else none, fun _ => some 1⟩

/-- Request `i` asks the Profile API, which cannot be reached. -/
def unreachable (i : ℕ) : List (Act ℕ (Transport × String) AuthChoice) :=
  [.start i (.http, "tok_cold"), .step i (.clock 0 0), .step i (.cache .ok), .step i (.cache .ok),
    .step i (.sent none), .step i (.clock 0 0)]

/-- Request `i` asks the Profile API, which knows the token; the user is stored in the cache. -/
def validated (i : ℕ) : List (Act ℕ (Transport × String) AuthChoice) :=
  [.start i (.http, "tok_hot"), .step i (.clock 0 0), .step i (.cache .ok), .step i (.cache .ok),
    .step i (.sent (some 200)), .step i (.body (.ok ⟨some true, some "usr_1", none⟩)),
    .step i (.cache .ok), .step i (.cache .ok), .step i (.clock 0 0)]

/-- Request `i` is answered from the cache. -/
def fromCache (i : ℕ) : List (Act ℕ (Transport × String) AuthChoice) :=
  [.start i (.http, "tok_hot"), .step i (.clock 0 0), .step i (.cache .ok), .step i (.clock 0 0)]

/-- One success, then an outage of five calls. -/
def plainOutage : List (Act ℕ (Transport × String) AuthChoice) :=
  validated 0 ++ (List.range 5).flatMap fun i => unreachable (i + 1)

/-- The same outage; before the fifth call a request is answered from the cache. -/
def maskedOutage : List (Act ℕ (Transport × String) AuthChoice) :=
  validated 0 ++ ((List.range 4).flatMap fun i => unreachable (i + 1)) ++ fromCache 5 ++
    unreachable 6

/-- No success is recorded for a request that has not called the Profile API. -/
def noneFromCache (c : ObservedConfig ℕ) : Act ℕ (Transport × String) AuthChoice → Bool
  | .step i _ =>
    match c.calls i with
    | .running _ (.op .recordSuccess _) => c.shared.contacted i
    | _ => true
  | _ => true

theorem cachedWhileOpen_of_noneFromCache (c : ObservedConfig ℕ)
    (a : Act ℕ (Transport × String) AuthChoice) (h : noneFromCache c a = true) :
    CachedWhileOpen c a := by
  rintro i x k f rfl hi hcontacted
  simp [noneFromCache, hi, hcontacted] at h

/-- `remoteFailuresOpen_iff` for the run `plainOutage`, which opens the breaker. -/
theorem remoteFailuresOpen_iff_plainOutage : ∃ c,
    (observedAuthentications defaultBreaker oneUser 300).machine.run
      ⟨⟨newAuthState, fun _ => false, 0, false⟩, fun _ => .idle⟩ plainOutage = some c ∧
    (c.shared.failures, c.shared.auth.breaker.state) = (5, .opened) ∧
    (observedAuthentications defaultBreaker oneUser 300).machine.Along
      (RemoteFailuresOpen defaultBreaker)
      ⟨⟨newAuthState, fun _ => false, 0, false⟩, fun _ => .idle⟩ plainOutage := by
  have hview : ((observedAuthentications defaultBreaker oneUser 300).machine.run
      ⟨⟨newAuthState, fun _ => false, 0, false⟩, fun _ => .idle⟩ plainOutage).map (fun c =>
        (c.shared.failures, c.shared.auth.breaker.state)) = some (5, .opened) := by
    decide +kernel
  have hremote : (observedAuthentications defaultBreaker oneUser 300).machine.meetsAll noneFromCache
      ⟨⟨newAuthState, fun _ => false, 0, false⟩, fun _ => .idle⟩ plainOutage = true := by
    decide +kernel
  obtain ⟨c, hrun, hc⟩ := Option.map_eq_some_iff.mp hview
  refine ⟨c, hrun, hc, (remoteFailuresOpen_iff ⟨⟨rfl, rfl, rfl⟩, fun _ => rfl⟩ hrun).mpr ?_⟩
  exact Machine.meets_of_meetsAll cachedWhileOpen_of_noneFromCache hremote

/-- After `maskedOutage` five remote calls have failed with no success among them, and the
    breaker is closed. -/
theorem outage_masked : ∃ c, (observedAuthentications defaultBreaker oneUser 300).machine.run
      ⟨⟨newAuthState, fun _ => false, 0, false⟩, fun _ => .idle⟩ maskedOutage = some c ∧
    c.shared.failures = 5 ∧ defaultBreaker.failureThreshold = 5 ∧
    c.shared.auth.breaker.state = .closed ∧ ¬ RemoteFailuresOpen defaultBreaker c := by
  have hview : ((observedAuthentications defaultBreaker oneUser 300).machine.run
      ⟨⟨newAuthState, fun _ => false, 0, false⟩, fun _ => .idle⟩ maskedOutage).map (fun c =>
        (c.shared.failures, c.shared.auth.breaker.state)) = some (5, .closed) := by
    decide +kernel
  obtain ⟨c, hrun, hc⟩ := Option.map_eq_some_iff.mp hview
  simp only [Prod.mk.injEq] at hc
  obtain ⟨hfailures, hclosed⟩ := hc
  refine ⟨c, hrun, hfailures, rfl, hclosed, fun hopen => ?_⟩
  refine hopen.opened ?_ ?_ hclosed
  · rw [hfailures]; decide
  · rw [hfailures]; exact le_refl 5

end SocialApi.Auth
