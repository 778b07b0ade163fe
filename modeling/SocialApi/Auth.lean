import SocialApi.Clients.ProfileClient
import SocialApi.Clients.ProbeSlot
import SocialApi.Concurrent.Pool

/-!
# Authentication through the profile breaker

`authenticate_token` of `auth.rs` with either token validator, for any number of
concurrent requests. A request's future may be dropped at any point, as it is when
the client disconnects; the breaker does not notice.

Results:
* `profileProbeFree_iff`: along a run of authentications the probe slot is free
  whenever no request is in progress, exactly when no admitted request is dropped
  as the last one while the slot is taken.
* `profileProbe_leaks`: a run in which it is.
-/

namespace SocialApi.Auth

open SocialApi.Concurrent SocialApi.Clients

/-- `AuthFailure` (auth.rs:13–19). -/
inductive AuthFailure where
  | missingToken
  | malformedToken
  | invalidToken
  | serviceUnavailable
  deriving DecidableEq, Repr

/-- What the outcome of the validation is recorded as and answered with (auth.rs:46–60). -/
def recordOutcome : Except AppError AuthenticatedUser → Authn (Except AuthFailure AuthenticatedUser)
  | .ok user => do
    AuthOp.perform .recordSuccess
    return .ok user
  | .error (.unauthorized _) => do
    AuthOp.perform .recordSuccess
    return .error .invalidToken
  | .error (.dependencyUnavailable _) => do
    AuthOp.perform .recordFailure
    return .error .serviceUnavailable
  | .error (.internal _) => do
    AuthOp.perform .recordFailure
    return .error .serviceUnavailable
  | .error _ => return .error .serviceUnavailable

/-- `authenticate_token` (auth.rs:37–61). -/
def authenticateToken (U : UserCodec) (ttlSecs : ℕ) (transport : Transport) (token : String) :
    Authn (Except AuthFailure AuthenticatedUser) := do
  if ← AuthOp.perform .allowRequest then
    let outcome ← validateToken U ttlSecs transport token
    recordOutcome outcome
  else return .error .serviceUnavailable

/-! ## The state -/

/-- What the requests share: the breaker and the cache. -/
structure AuthState where
  breaker : Inner
  cache : Cache.CacheState

/-- What an operation leaves open. -/
inductive AuthChoice where
  | clock (now now' : Instant)
  | cache (x : Cache.Choice)
  | sent (status : Option ℕ)
  | body (result : Except String ProfileBody)
  | rpc (outcome : RpcOutcome)
  | evict (layer : Cache.Layer) (key : CacheKey)

/-- What one operation does. -/
def handle (config : CircuitBreakerConfig) (s : AuthState) :
    (o : AuthOp) → AuthChoice → Option (AuthState × o.Ans)
  | .allowRequest, .clock now _ =>
    let r := CircuitBreaker.allowRequest config now s.breaker
    some ({ s with breaker := r.1 }, r.2)
  | .recordSuccess, .clock now _ =>
    some ({ s with breaker := CircuitBreaker.recordSuccess config now s.breaker }, ())
  | .recordFailure, .clock now now' =>
    some ({ s with breaker := CircuitBreaker.recordFailure config now now' s.breaker }, ())
  | .cache o, .cache x => (Cache.handle s.cache o x).map fun r => ({ s with cache := r.1 }, r.2)
  | .send _, .sent status => some (s, status)
  | .json, .body result => some (s, result)
  | .validateToken _, .rpc outcome => some (s, outcome)
  | _, _ => none

/-- An entry of the cache expires or is evicted. -/
def evict (s : AuthState) : AuthChoice → Option AuthState
  | .evict layer key => some { s with cache := Cache.evict s.cache layer key }
  | _ => none

/-! ## How far a request is -/

/-- Before `allow_request`, admitted with the outcome not yet recorded, or done with the
    breaker. -/
inductive Progress where
  | fresh
  | admitted
  | done
  deriving DecidableEq

/-- The request is admitted and its outcome not yet recorded. -/
def Progress.Inside (g : Progress) : Prop := g = .admitted

/-- `allow_request`, then anything but the breaker, then one record. -/
def progress : Protocol AuthOp AuthOp.Ans Progress where
  asks
    | .fresh, .allowRequest => True
    | .admitted, .allowRequest => False
    | .admitted, _ => True
    | _, _ => False
  answers g o r g' :=
    match o, r with
    | .allowRequest, r => g' = if r then .admitted else .done
    | .recordSuccess, _ => g' = .done
    | .recordFailure, _ => g' = .done
    | _, _ => g' = g

/-- The request is done with the breaker. -/
def IsDone {α : Type} (g : Progress) (_ : α) : Prop := g = .done

/-- Between admission and record, ending in an outcome that is recorded. -/
def Recordable (g : Progress) (outcome : Except AppError AuthenticatedUser) : Prop :=
  g = .admitted ∧ ∀ e, outcome = .error e →
    (∃ m, e = .unauthorized m) ∨ (∃ m, e = .dependencyUnavailable m) ∨ ∃ m, e = .internal m

theorem authCache_obeys {α : Type} (p : Cache.CacheM α) :
    progress.Obeys (fun g _ => g = .admitted) .admitted (authCache p) := by
  refine Protocol.obeys_of_all (S := fun o => ∃ o', o = .cache o') ?_
    (.lift (Prog.all_of_forall (fun o => ⟨o, rfl⟩) p)) fun _ => rfl
  rintro o ⟨o', rfl⟩
  exact ⟨trivial, fun _ _ h => h⟩

theorem recordable_ok (user : AuthenticatedUser) : Recordable .admitted (.ok user) :=
  ⟨rfl, fun _ h => by cases h⟩

theorem recordable_unauthorized (m : String) : Recordable .admitted (.error (.unauthorized m)) :=
  ⟨rfl, fun _ h => by cases h; exact Or.inl ⟨m, rfl⟩⟩

theorem recordable_dependency (m : String) :
    Recordable .admitted (.error (.dependencyUnavailable m)) :=
  ⟨rfl, fun _ h => by cases h; exact Or.inr (Or.inl ⟨m, rfl⟩)⟩

theorem recordable_internal (m : String) : Recordable .admitted (.error (.internal m)) :=
  ⟨rfl, fun _ h => by cases h; exact Or.inr (Or.inr ⟨m, rfl⟩)⟩

theorem storeUser_obeys (U : UserCodec) (ttlSecs : ℕ) (token : String)
    (user : AuthenticatedUser) :
    progress.Obeys Recordable .admitted (storeUser U ttlSecs token user) := by
  unfold storeUser
  split
  · refine (authCache_obeys _).bind ?_
    rintro g a rfl
    exact recordable_ok user
  · exact recordable_ok user

theorem parseProfile_recordable (U : UserCodec) (body : ProfileBody) :
    Recordable .admitted (parseProfile U body) := by
  unfold parseProfile
  split_ifs
  · split
    · exact recordable_internal _
    · split
      · exact recordable_internal _
      · exact recordable_ok _
  · exact recordable_unauthorized _

theorem httpValidate_obeys (U : UserCodec) (ttlSecs : ℕ) (token : String) :
    progress.Obeys Recordable .admitted (httpValidate U ttlSecs token) := by
  unfold httpValidate
  refine ⟨trivial, ?_⟩
  rintro (_ | status) g rfl
  · exact recordable_dependency _
  · show progress.Obeys Recordable .admitted (if _ then _ else _)
    split_ifs
    · exact recordable_dependency _
    · refine ⟨trivial, ?_⟩
      rintro (e | body) g rfl
      · exact recordable_internal _
      · have hbody := parseProfile_recordable U body
        simp only [Prog.ret_bind]
        revert hbody
        generalize parseProfile U body = parsed
        intro hbody
        cases parsed with
        | error e => exact hbody
        | ok user => exact storeUser_obeys _ _ _ _
    · exact recordable_unauthorized _

theorem grpcValidate_obeys (U : UserCodec) (ttlSecs : ℕ) (token : String) :
    progress.Obeys Recordable .admitted (grpcValidate U ttlSecs token) := by
  unfold grpcValidate
  refine ⟨trivial, ?_⟩
  rintro (resp | unauthenticated | _) g rfl
  · show progress.Obeys Recordable .admitted (if _ then _ else _)
    split_ifs
    · split
      · exact recordable_internal _
      · exact storeUser_obeys _ _ _ _
    · exact recordable_unauthorized _
  · cases unauthenticated
    · exact recordable_dependency _
    · exact recordable_unauthorized _
  · exact recordable_dependency _

/-- The only errors of a validator are those that `authenticate_token` records. -/
theorem validateToken_obeys (U : UserCodec) (ttlSecs : ℕ) (transport : Transport)
    (token : String) :
    progress.Obeys Recordable .admitted (validateToken U ttlSecs transport token) := by
  unfold validateToken
  refine (authCache_obeys _).bind ?_
  rintro g cached rfl
  generalize cached.bind U.userFromJson = user
  cases user with
  | some user => exact recordable_ok _
  | none =>
    cases transport
    · exact httpValidate_obeys _ _ _
    · exact grpcValidate_obeys _ _ _

theorem authenticateToken_obeys (U : UserCodec) (ttlSecs : ℕ) (transport : Transport)
    (token : String) :
    progress.Obeys IsDone .fresh (authenticateToken U ttlSecs transport token) := by
  unfold authenticateToken
  refine ⟨trivial, ?_⟩
  rintro (_ | _) g rfl
  · exact rfl
  · refine (validateToken_obeys U ttlSecs transport token).bind ?_
    rintro g (e | user) ⟨rfl, he⟩
    · obtain ⟨m, rfl⟩ | ⟨m, rfl⟩ | ⟨m, rfl⟩ := he e rfl
      · exact ⟨trivial, fun _ _ h => h⟩
      · exact ⟨trivial, fun _ _ h => h⟩
      · exact ⟨trivial, fun _ _ h => h⟩
    · exact ⟨trivial, fun _ _ h => h⟩

/-! ## The pool of authentications -/

section Pool

variable {ι : Type} (config : CircuitBreakerConfig) (U : UserCodec) (ttlSecs : ℕ)

/-- A configuration of authentications; a request is the transport and the token. -/
abbrev AuthConfig (ι : Type) :=
  Configuration ι AuthState (Transport × String) AuthOp AuthOp.Ans
    (Except AuthFailure AuthenticatedUser)

/-- Authentications over any cache with a new profile breaker. A dropped request leaves
    everything as it is. -/
def authentications : Pool ι AuthState (Transport × String) AuthOp AuthOp.Ans
    (Except AuthFailure AuthenticatedUser) AuthChoice where
  init s := s.breaker = CircuitBreaker.new
  prog k := authenticateToken U ttlSecs k.1 k.2
  start s _ _ := some s
  handle s _ := handle config s
  drop s _ := some s
  env := evict

variable {config U ttlSecs}

/-- With no request in progress, the slot is free, and a breaker that is not open or whose
    recovery time has passed admits the next request. -/
def ProfileProbeFree (config : CircuitBreakerConfig) (c : AuthConfig ι) : Prop :=
  (∀ i, ¬ (c.calls i).Active) → c.shared.breaker.probeInFlight = false ∧
    ∀ now, (c.shared.breaker.state = .opened →
        CircuitBreaker.recoveryElapsed config now c.shared.breaker = true) →
      (CircuitBreaker.allowRequest config now c.shared.breaker).2 = true

/-- The request is admitted and its outcome not yet recorded: it is past `allow_request`
    and still in progress. -/
def admitted : CallState (Transport × String) AuthOp AuthOp.Ans
    (Except AuthFailure AuthenticatedUser) → Bool
  | .running _ (.op .allowRequest _) => false
  | .running _ (.op _ _) => true
  | _ => false

/-- A step that drops an admitted request while the slot is taken leaves another admitted
    request. -/
def DropNotLast (c : AuthConfig ι) (a : Act ι (Transport × String) AuthChoice) : Prop :=
  ∀ i, a = .drop i → admitted (c.calls i) = true → c.shared.breaker.probeInFlight = true →
    ∃ j, j ≠ i ∧ admitted (c.calls j) = true

/-- A request is admitted exactly when its ghost state says so. -/
theorem admitted_iff {c : AuthConfig ι} {γ : ι → Option Progress} {i : ι}
    (h : Pool.Follows progress (fun _ => IsDone) (γ i) (c.calls i)) :
    admitted (c.calls i) = true ↔ ∃ g, γ i = some g ∧ g.Inside := by
  cases hc : c.calls i with
  | idle => rw [hc] at h; rw [show γ i = none from h]; simp [admitted]
  | returned k a => rw [hc] at h; rw [h.1]; simp [admitted]
  | dropped k => rw [hc] at h; rw [show γ i = none from h]; simp [admitted]
  | running k p =>
    rw [hc] at h
    obtain ⟨g, hg, hobeys⟩ := h
    rw [hg]
    cases p with
    | ret a =>
      have hdone : g = .done := hobeys
      simp [admitted, hdone, Progress.Inside]
    | op o f =>
      have hask := hobeys.1
      cases g <;> cases o <;> first | exact hask.elim | simp [admitted, Progress.Inside]

variable (config U ttlSecs)

theorem authentications_sound [DecidableEq ι] :
    Pool.Sound (authentications (ι := ι) config U ttlSecs) progress (fun _ => IsDone)
      (fun _ => .fresh) (fun s γ => SlotInv Progress.Inside s.breaker γ) DropNotLast where
  init s hs := by
    rw [show s.breaker = CircuitBreaker.new from hs]
    exact slotInv_new
  prog k := authenticateToken_obeys U ttlSecs k.1 k.2
  start c i k s γ _ h hγ hs := by
    cases hs
    exact h.of_not (fun g hg => by rw [hγ] at hg; cases hg) _
  handle c i x k o f s r γ g _ h _ _ hγ hask hs := by
    have hs : handle config c.shared o x = some (s, r) := hs
    cases g with
    | fresh =>
      cases o with
      | allowRequest =>
        cases x with
        | clock now now' =>
          cases hs
          exact ⟨_, rfl, h.allowRequest hγ nofun (show Progress.admitted.Inside from rfl) _ _⟩
        | _ => cases hs
      | _ => exact hask.elim
    | done => cases o <;> exact hask.elim
    | admitted =>
      cases o with
      | allowRequest => exact hask.elim
      | recordSuccess =>
        cases x with
        | clock now now' => cases hs; exact ⟨.done, rfl, h.recordSuccess _ _ _⟩
        | _ => cases hs
      | recordFailure =>
        cases x with
        | clock now now' => cases hs; exact ⟨.done, rfl, slotInv_recordFailure _ _ _ _ _⟩
        | _ => cases hs
      | cache o =>
        cases x with
        | cache x =>
          obtain ⟨sr, -, he⟩ := Option.map_eq_some_iff.mp hs
          cases he
          exact ⟨.admitted, rfl, h.same hγ id⟩
        | _ => cases hs
      | send token =>
        cases x with
        | sent status => cases hs; exact ⟨.admitted, rfl, h.same hγ id⟩
        | _ => cases hs
      | json =>
        cases x with
        | body result => cases hs; exact ⟨.admitted, rfl, h.same hγ id⟩
        | _ => cases hs
      | validateToken token =>
        cases x with
        | rpc outcome => cases hs; exact ⟨.admitted, rfl, h.same hγ id⟩
        | _ => cases hs
  ret s i k γ g a h hγ ha := by
    refine h.of_not (fun g' hg' hin => ?_) _
    rw [hγ] at hg'
    cases hg'
    rw [show g = .done from ha] at hin
    cases hin
  drop c i k p s γ g hguard h hF hi hγ hs := by
    cases hs
    by_cases hg : g.Inside
    · refine h.leave (fun hp => ?_) _
      have hadm := (admitted_iff (hF i)).mpr ⟨g, hγ, hg⟩
      obtain ⟨j, hji, hj⟩ := hguard i rfl hadm hp
      obtain ⟨g', hg', hin⟩ := (admitted_iff (hF j)).mp hj
      exact ⟨j, g', hji, hg', hin⟩
    · refine h.of_not (fun g' hg' => ?_) _
      rw [hγ] at hg'
      cases hg'
      exact hg
  env c x s γ _ h hs := by
    cases x with
    | evict layer key => cases hs; exact h
    | _ => cases hs

/-! ## When the slot is free -/

variable {config U ttlSecs}

theorem not_active_of_admitted {c : AuthConfig ι} {i : ι} (h : ¬ (c.calls i).Active) :
    ¬ admitted (c.calls i) = true := by
  cases hc : c.calls i with
  | running k p => rw [hc] at h; exact absurd trivial h
  | _ => simp [admitted]

/-- The invariant gives the property. -/
theorem profileProbeFree_of_inv {c : AuthConfig ι}
    (h : Pool.Inv progress (fun _ => IsDone)
      (fun s γ => SlotInv Progress.Inside s.breaker γ) c) : ProfileProbeFree config c := by
  obtain ⟨γ, hslot, hF⟩ := h
  intro hnone
  refine hslot.free (fun i g hg hin => ?_) _
  exact not_active_of_admitted (hnone i) ((admitted_iff (hF i)).mpr ⟨g, hg, hin⟩)

/-- The slot is taken and nobody is inside to give it back. -/
def Leaked (s : AuthState) (γ : ι → Option Progress) : Prop :=
  s.breaker.state = .halfOpen ∧ s.breaker.probeInFlight = true ∧
    ∀ i g, γ i = some g → ¬ g.Inside

variable [DecidableEq ι]

theorem Leaked.update {s s' : AuthState} {γ : ι → Option Progress} (h : Leaked s γ)
    (hs : s'.breaker = s.breaker) (i : ι) {v : Option Progress}
    (hv : ∀ g, v = some g → ¬ g.Inside) : Leaked s' (Function.update γ i v) := by
  refine ⟨hs ▸ h.1, hs ▸ h.2.1, fun j g hj => ?_⟩
  by_cases hji : j = i
  · subst hji; exact hv g (by rwa [Function.update_self] at hj)
  · exact h.2.2 j g (by rwa [Function.update_of_ne hji] at hj)

/-- Nothing that happens afterwards gives a leaked slot back. -/
theorem leaked_keeps : Pool.Keeps (authentications (ι := ι) config U ttlSecs) progress
    (fun _ => IsDone) (fun _ => .fresh) Leaked fun _ _ => True where
  prog k := authenticateToken_obeys U ttlSecs k.1 k.2
  start c i k s γ _ h _ hs := by
    cases hs
    exact h.update rfl i fun g hg => by cases hg; exact nofun
  handle c i x k o f s r γ g _ h _ _ hγ hask hs := by
    have hs : handle config c.shared o x = some (s, r) := hs
    cases g with
    | fresh =>
      cases o with
      | allowRequest =>
        cases x with
        | clock now now' =>
          cases hs
          refine ⟨.done, ?_, h.update ?_ i fun g hg => by cases hg; exact nofun⟩
          · rw [CircuitBreaker.allowRequest_of_taken h.1 h.2.1]; exact rfl
          · show (CircuitBreaker.allowRequest config now c.shared.breaker).1 = _
            rw [CircuitBreaker.allowRequest_of_taken h.1 h.2.1]
        | _ => cases hs
      | _ => exact hask.elim
    | done => cases o <;> exact hask.elim
    | admitted => exact absurd rfl (h.2.2 i _ hγ)
  ret s i k γ g a h _ _ := h.update rfl i nofun
  drop c i k p s γ g _ h _ _ _ hs := by cases hs; exact h.update rfl i nofun
  env c x s γ _ h hs := by
    cases x with
    | evict layer key => cases hs; exact h
    | _ => cases hs

/-- Along a run from a new breaker the slot is free whenever no request is in progress, if
    every drop of an admitted request while the slot is taken leaves another admitted
    request; and if the run ends with no request in progress, only if. -/
theorem profileProbeFree_iff {c c' : AuthConfig ι}
    {as : List (Act ι (Transport × String) AuthChoice)}
    (hc : (authentications config U ttlSecs).machine.init c)
    (hrun : (authentications config U ttlSecs).machine.run c as = some c') :
    ((authentications config U ttlSecs).machine.Meets DropNotLast c as →
      (authentications config U ttlSecs).machine.Along (ProfileProbeFree config) c as) ∧
    ((∀ i, ¬ (c'.calls i).Active) →
      (authentications config U ttlSecs).machine.Along (ProfileProbeFree config) c as →
      (authentications config U ttlSecs).machine.Meets DropNotLast c as) := by
  have S := authentications_sound (ι := ι) config U ttlSecs
  have hinit := S.inv_init hc
  constructor
  · intro hmeets
    have halong := Machine.along_of_meets (fun c a c' => S.inv_step c a c') hinit hmeets
    exact halong.mono fun c => profileProbeFree_of_inv
  · intro hend halong
    refine Machine.meets_of_last (L := Pool.Inv progress (fun _ => IsDone) Leaked)
      (fun c a c' => S.inv_step c a c') ?_
      (fun c a c' hL => leaked_keeps.inv_step c a c' hL trivial) hinit hrun ?_
    · -- a drop that breaks the condition leaks the slot
      rintro c a c' ⟨γ, ⟨hok, -⟩, hF⟩ hbad hstep
      simp only [DropNotLast, not_forall, not_exists, not_and] at hbad
      obtain ⟨i, rfl, hadm, hp, hothers⟩ := hbad
      cases hi : c.calls i with
      | running k p =>
        obtain ⟨s, hs, rfl⟩ := Pool.act_drop hstep hi
        cases hs
        refine ⟨Function.update γ i none, ⟨hok.probe hp, hp, fun j g hj hin => ?_⟩,
          Pool.follows_update hF rfl⟩
        by_cases hji : j = i
        · subst hji; rw [Function.update_self] at hj; cases hj
        · rw [Function.update_of_ne hji] at hj
          exact hothers j hji ((admitted_iff (hF j)).mpr ⟨g, hj, hin⟩)
      | _ => rw [hi] at hadm; cases hadm
    · rintro ⟨γ, ⟨-, hp, -⟩, -⟩
      have hfalse := (halong.last hrun hend).1
      rw [hp] at hfalse
      cases hfalse

end Pool

/-! ## A leaked probe -/

/-- The default settings of a breaker (config.rs:210–225 and state.rs:226–236). -/
def defaultBreaker : CircuitBreakerConfig where
  failureThreshold := 5
  recoveryTimeout := 30000000000
  successThreshold := 3
  rateWindow := 30000000000
  failureRateThreshold := 1 / 2
  minCallsForRate := 10

/-- A codec for a run in which no user is ever read or written. -/
def noUsers : UserCodec := ⟨fun _ => none, fun _ => none, fun _ => none⟩

/-- A service that has just started. -/
def newAuthState : AuthState := ⟨CircuitBreaker.new, .empty⟩

/-- Five authentications that do not reach the Profile API open the breaker; after the
    recovery time the client of the probe disconnects while the request is under way. -/
def droppedProbe : List (Act (Fin 6) (Transport × String) AuthChoice) :=
  (List.finRange 5).flatMap (fun i =>
    [.start i.castSucc (.http, "tok_user_1"), .step i.castSucc (.clock 0 0),
      .step i.castSucc (.cache .ok), .step i.castSucc (.cache .ok),
      .step i.castSucc (.sent none), .step i.castSucc (.clock 0 0)]) ++
  [.start 5 (.http, "tok_user_1"), .step 5 (.clock 30000000000 0), .step 5 (.cache .ok),
    .step 5 (.cache .ok), .drop 5]

/-- After `droppedProbe` no request is in progress, but the slot is taken, for good. -/
theorem profileProbe_leaks : ∃ c, (authentications defaultBreaker noUsers 300).machine.run
      ⟨newAuthState, fun _ => .idle⟩ droppedProbe = some c ∧
    (∀ i, ¬ (c.calls i).Active) ∧ c.shared.breaker.probeInFlight = true ∧
    ∀ now, (CircuitBreaker.allowRequest defaultBreaker now c.shared.breaker).2 = false := by
  have hview : ((authentications defaultBreaker noUsers 300).machine.run
      ⟨newAuthState, fun _ => .idle⟩ droppedProbe).map (fun c =>
        (c.shared.breaker.state, c.shared.breaker.probeInFlight,
          decide (∀ i, ¬ (c.calls i).Active))) = some (.halfOpen, true, true) := by
    decide +kernel
  obtain ⟨c, hrun, hc⟩ := Option.map_eq_some_iff.mp hview
  simp only [Prod.mk.injEq, decide_eq_true_eq] at hc
  obtain ⟨hs, hp, hover⟩ := hc
  exact ⟨c, hrun, hover, hp, fun now => by rw [CircuitBreaker.allowRequest_of_taken hs hp]⟩

/-- The client of request 6 disconnects before the five failures; the probe, request 5, is answered
    by the Profile API. -/
def answeredProbe : List (Act (Fin 7) (Transport × String) AuthChoice) :=
  [.start 6 (.http, "tok_user_1"), .step 6 (.clock 0 0), .drop 6] ++
  ([0, 1, 2, 3, 4] : List (Fin 7)).flatMap (fun i =>
    [.start i (.http, "tok_user_1"), .step i (.clock 0 0), .step i (.cache .ok),
      .step i (.cache .ok), .step i (.sent none), .step i (.clock 0 0)]) ++
  [.start 5 (.http, "tok_user_1"), .step 5 (.clock 30000000000 0), .step 5 (.cache .ok),
    .step 5 (.cache .ok), .step 5 (.sent (some 401)), .step 5 (.clock 30000000000 0)]

/-- A request that is dropped leaves the slot free. -/
def droppedFree {ι : Type} (c : AuthConfig ι) : Act ι (Transport × String) AuthChoice → Bool
  | .drop _ => !c.shared.breaker.probeInFlight
  | _ => true

theorem dropNotLast_of_free {ι : Type} (c : AuthConfig ι)
    (a : Act ι (Transport × String) AuthChoice) (h : droppedFree c a = true) :
    DropNotLast c a := by
  rintro i rfl - hprobe
  rw [droppedFree, hprobe] at h
  cases h

/-- `profileProbeFree_iff` for `answeredProbe`, after which the slot is free, and for
    `droppedProbe`; both end with no request in progress. -/
theorem profileProbeFree_iff_answeredProbe_droppedProbe :
    (∃ c, (authentications defaultBreaker noUsers 300).machine.run
        ⟨newAuthState, fun _ => .idle⟩ answeredProbe = some c ∧
      c.shared.breaker.state = .halfOpen ∧ c.shared.breaker.probeInFlight = false ∧
      (authentications defaultBreaker noUsers 300).machine.Along (ProfileProbeFree defaultBreaker)
        ⟨newAuthState, fun _ => .idle⟩ answeredProbe) ∧
    ((authentications defaultBreaker noUsers 300).machine.Along (ProfileProbeFree defaultBreaker)
        ⟨newAuthState, fun _ => .idle⟩ droppedProbe ↔
      (authentications defaultBreaker noUsers 300).machine.Meets DropNotLast
        ⟨newAuthState, fun _ => .idle⟩ droppedProbe) := by
  constructor
  · have hview : ((authentications defaultBreaker noUsers 300).machine.run
        ⟨newAuthState, fun _ => .idle⟩ answeredProbe).map (fun c =>
          (c.shared.breaker.state, c.shared.breaker.probeInFlight)) = some (.halfOpen, false) := by
      decide +kernel
    have hfree : (authentications defaultBreaker noUsers 300).machine.meetsAll droppedFree
        ⟨newAuthState, fun _ => .idle⟩ answeredProbe = true := by
      decide +kernel
    have hinit : (authentications (ι := Fin 7) defaultBreaker noUsers 300).machine.init
        ⟨newAuthState, fun _ => .idle⟩ := ⟨rfl, fun _ => rfl⟩
    obtain ⟨c, hrun, hc⟩ := Option.map_eq_some_iff.mp hview
    obtain ⟨hs, hp⟩ := Prod.mk.inj hc
    exact ⟨c, hrun, hs, hp, (profileProbeFree_iff hinit hrun).1
      (Machine.meets_of_meetsAll dropNotLast_of_free hfree)⟩
  · have hview : ((authentications defaultBreaker noUsers 300).machine.run
        ⟨newAuthState, fun _ => .idle⟩ droppedProbe).map (fun c =>
          decide (∀ i, ¬ (c.calls i).Active)) = some true := by decide +kernel
    obtain ⟨c, hrun, hc⟩ := Option.map_eq_some_iff.mp hview
    have hinit : (authentications (ι := Fin 6) defaultBreaker noUsers 300).machine.init
        ⟨newAuthState, fun _ => .idle⟩ := ⟨rfl, fun _ => rfl⟩
    obtain ⟨hif, honlyif⟩ := profileProbeFree_iff hinit hrun
    exact ⟨honlyif (of_decide_eq_true hc), hif⟩

end SocialApi.Auth
