import SocialApi.Clients.TokenCache
import SocialApi.Concurrent.LookAside
import SocialApi.Cluster

/-!
# How long a revoked token is accepted

The token validators of all replicas share Redis, each replica has its own L1, and there is a
global clock. A validator that finds a user in the cache does not ask the Profile API; a token
that the Profile API no longer accepts is accepted until the entries for it have expired.

* `users_recent`: a user that a validator returns is one that the Profile API has answered with,
  for a token with the same hash, not longer ago than `cache_ttl_user_status_secs`,
  `local_cache_ttl_ms` and three times the longest duration of a call.
-/

namespace SocialApi.Clients

open SocialApi.Concurrent SocialApi.Services

/-! ## Validators as clients of the Profile API -/

/-- The settings of a validator. -/
structure TokenSettings where
  cacheTtlUserStatusSecs : ℕ
  localCacheTtlMs : ℕ

/-- The accesses to the cache are those to the two layers, everything else is asked. -/
def lookOp : AuthOp → LookOp CacheKey String AuthOp
  | .cache (.l1Get key) => .layer (.getNear key)
  | .cache (.l1Insert key value) => .layer (.putNear key value)
  | .cache (.redisGet key) => .layer (.getFar key)
  | .cache (.redisSetEx key value ttlSecs) => .layer (.putFar key value (seconds ttlSecs))
  | o => .ask o

/-- The answer to an operation. -/
def lookAnswer : (o : AuthOp) → (lookOp o).Ans AuthOp.Ans → o.Ans
  | .allowRequest, r => r
  | .recordSuccess, r => r
  | .recordFailure, r => r
  | .cache (.l1Get _), r => r
  | .cache (.l1Insert _ _), r => r
  | .cache (.l1Remove _), r => r
  | .cache (.l1InvalidatePrefix _), r => r
  | .cache (.redisGet _), r => r
  | .cache (.redisMget _), r => r
  | .cache (.redisSetEx _ _ _), r => r
  | .cache (.redisDel _), r => r
  | .send _, r => r
  | .json, r => r
  | .validateToken _, r => r

/-- The user that an answer of the Profile API is about. -/
def answeredUser (U : UserCodec) : (o : AuthOp) → o.Ans → Option AuthenticatedUser
  | .json, result => bodyUser U result
  | .validateToken _, outcome => outcome.user U
  | _, _ => none

/-- The validators as clients of the Profile API. -/
def tokenLookAside (U : UserCodec) (S : TokenSettings) :
    LookAside (Transport × String) CacheKey String AuthenticatedUser AuthOp AuthOp.Ans where
  key k := tokenCacheKey k.2
  text := U.userToJson
  life _ := seconds S.cacheTtlUserStatusSecs
  nearLife := millis S.localCacheTtlMs
  meaning _ := answeredUser U

/-- `TokenValidator::validate` over the two layers. -/
def validateTokenAside (U : UserCodec) (S : TokenSettings) (k : Transport × String) :
    Prog (LookOp CacheKey String AuthOp) (LookOp.Ans AuthOp.Ans) (Except AppError AuthenticatedUser) :=
  (validateToken U S.cacheTtlUserStatusSecs k.1 k.2).lift lookOp lookAnswer

/-- What a validator has. -/
abbrev TokenLookup := LookAside.Lookup (Transport × String) String AuthenticatedUser

/-- A user that is returned is the one the Profile API has answered with, or the one in the text
    from the cache. -/
def Validated (U : UserCodec) (k : Transport × String) (g : TokenLookup)
    (result : Except AppError AuthenticatedUser) : Prop :=
  g.request = k ∧ ∀ user, result = .ok user → g.stage = .told user ∨
    ∃ text, (g.stage = .near text ∨ g.stage = .far text) ∧ U.userFromJson text = some user

section Programs

variable {U : UserCodec} {S : TokenSettings} {k : Transport × String} {stage : LookAside.Stage String
  AuthenticatedUser}

/-- The operations of the validators, as a protocol. -/
abbrev tokenSteps (U : UserCodec) (S : TokenSettings) : Protocol AuthOp AuthOp.Ans TokenLookup :=
  (tokenLookAside U S).protocol.comap lookOp lookAnswer

theorem validated_error (error : AppError) : Validated U k ⟨k, stage⟩ (.error error) :=
  ⟨rfl, fun user h => by cases h⟩

theorem storeUser_validated (user : AuthenticatedUser) :
    (tokenSteps U S).Obeys (Validated U k) ⟨k, .told user⟩
      (storeUser U S.cacheTtlUserStatusSecs k.2 user) := by
  have hreturn : Validated U k ⟨k, .told user⟩ (.ok user) :=
    ⟨rfl, fun user' h => Or.inl (by rw [Except.ok.inj h])⟩
  unfold storeUser
  cases hjson : U.userToJson user with
  | none => exact hreturn
  | some json =>
    refine ⟨⟨rfl, Or.inr ⟨user, rfl, hjson⟩⟩, ?_⟩
    rintro _ g ⟨_, rfl, rfl⟩
    refine ⟨⟨rfl, rfl, user, rfl, hjson⟩, ?_⟩
    rintro _ g ⟨_, rfl, rfl⟩
    exact hreturn

theorem httpValidate_validated : (tokenSteps U S).Obeys (Validated U k) ⟨k, stage⟩
    (httpValidate U S.cacheTtlUserStatusSecs k.2) := by
  unfold httpValidate
  refine ⟨trivial, ?_⟩
  rintro _ g ⟨r, rfl, rfl⟩
  show (tokenSteps U S).Obeys _ ⟨k, stage⟩ _
  match r with
  | none => exact validated_error _
  | some status =>
    show (tokenSteps U S).Obeys (Validated U k) ⟨k, stage⟩ (if _ then _ else _)
    split_ifs
    · exact validated_error _
    · refine ⟨trivial, ?_⟩
      rintro _ g ⟨body, rfl, rfl⟩
      match body with
      | .error e => exact validated_error _
      | .ok body =>
        simp only [LookAside.Lookup.next, lookOp, lookAnswer, tokenLookAside, answeredUser, bodyUser,
          Prog.ret_bind]
        cases parseProfile U body with
        | error e => exact validated_error _
        | ok user => exact storeUser_validated user
    · exact validated_error _

theorem grpcValidate_validated : (tokenSteps U S).Obeys (Validated U k) ⟨k, stage⟩
    (grpcValidate U S.cacheTtlUserStatusSecs k.2) := by
  unfold grpcValidate
  refine ⟨trivial, ?_⟩
  rintro _ g ⟨outcome, rfl, rfl⟩
  match outcome with
  | .response resp =>
    simp only [LookAside.Lookup.next, lookOp, lookAnswer, tokenLookAside, answeredUser,
      RpcOutcome.user, Prog.ret_bind]
    by_cases hvalid : resp.valid = true
    · simp only [hvalid, if_true]
      cases U.parseUuid resp.userId with
      | none => exact validated_error _
      | some userId => exact storeUser_validated _
    · simp only [hvalid]
      exact validated_error _
  | .status true => exact validated_error _
  | .status false => exact validated_error _
  | .timedOut => exact validated_error _

/-- Asking the Profile API, whatever is left from the cache. -/
theorem ask_validated : (tokenSteps U S).Obeys (Validated U k) ⟨k, stage⟩ (match k.1 with
    | .http => httpValidate U S.cacheTtlUserStatusSecs k.2
    | .grpc => grpcValidate U S.cacheTtlUserStatusSecs k.2) := by
  cases k.1 with
  | http => exact httpValidate_validated
  | grpc => exact grpcValidate_validated

/-- Going on with a text from the cache. -/
theorem found_validated {text : String} (hstage : stage = .near text ∨ stage = .far text) :
    (tokenSteps U S).Obeys (Validated U k) ⟨k, stage⟩ (match U.userFromJson text with
      | some user => .ret (.ok user)
      | none =>
        match k.1 with
        | .http => httpValidate U S.cacheTtlUserStatusSecs k.2
        | .grpc => grpcValidate U S.cacheTtlUserStatusSecs k.2) := by
  cases hjson : U.userFromJson text with
  | some user =>
    exact ⟨rfl, fun user' h => Or.inr ⟨text, hstage, by rw [hjson, Except.ok.inj h]⟩⟩
  | none => exact ask_validated

theorem validateTokenAside_validated (U : UserCodec) (S : TokenSettings) (k : Transport × String) :
    (tokenLookAside U S).protocol.Obeys (Validated U k) ⟨k, .looking⟩ (validateTokenAside U S k) := by
  refine Protocol.obeys_lift.mpr ?_
  unfold validateToken
  refine ⟨rfl, ?_⟩
  rintro _ g ⟨r, rfl, rfl⟩
  match r with
  | some text => exact found_validated (Or.inl rfl)
  | none =>
    refine ⟨rfl, ?_⟩
    rintro _ g ⟨r, rfl, rfl⟩
    match r with
    | none => exact ask_validated
    | some text =>
      refine ⟨⟨rfl, Or.inl rfl⟩, ?_⟩
      rintro _ g ⟨_, rfl, rfl⟩
      exact found_validated (Or.inr rfl)

end Programs

/-! ## How old a user is -/

/-- A configuration of validations. -/
abbrev TokenConfig (ι ρ : Type) :=
  Configuration ι (LookState ι ρ (Transport × String) CacheKey String AuthenticatedUser)
    (Transport × String) (LookOp CacheKey String AuthOp) (LookOp.Ans AuthOp.Ans)
    (Except AppError AuthenticatedUser)

variable {ι ρ : Type}

/-- Any number of validations on any number of replicas, each over its transport. -/
def tokenValidations [DecidableEq ι] [DecidableEq ρ] (U : UserCodec) (S : TokenSettings)
    (replica : ι → ρ) :
    Pool ι (LookState ι ρ (Transport × String) CacheKey String AuthenticatedUser)
      (Transport × String) (LookOp CacheKey String AuthOp) (LookOp.Ans AuthOp.Ans)
      (Except AppError AuthenticatedUser) (LookChoice ρ CacheKey AuthOp AuthOp.Ans) :=
  (tokenLookAside U S).clients replica (validateTokenAside U S)

section Users

variable {U : UserCodec} {S : TokenSettings} {D : ℕ}
  {s : LookState ι ρ (Transport × String) CacheKey String AuthenticatedUser} {i : ι}
  {k : Transport × String}

/-- A text that was stored under the key of a token is a user that the Profile API has answered
    with for a token of that hash. -/
theorem told_user
    (hjson : ∀ user json, U.userToJson user = some json → U.userFromJson json = some user)
    {text : String} {user : AuthenticatedUser} {t : ℕ}
    (h : (tokenLookAside U S).Told s (tokenCacheKey k.2) text t)
    (htext : U.userFromJson text = some user) :
    ∃ j k', (j, k', user, t) ∈ s.told ∧ fnv1aHash k'.2 = fnv1aHash k.2 := by
  obtain ⟨j, k', user', hmem, hkey, hstored⟩ := h
  rw [hjson user' text hstored] at htext
  obtain rfl := Option.some.inj htext
  exact ⟨j, k', hmem, CacheKey.tok.inj hkey⟩

/-- The user a validator returns, by what it had when it ended. -/
theorem user_of_ended
    (hjson : ∀ user json, U.userToJson user = some json → U.userFromJson json = some user)
    {g : TokenLookup} {user : AuthenticatedUser} (hg : Validated U k g (.ok user))
    (h : (tokenLookAside U S).Ended D s i g) :
    ∃ j k' t, (j, k', user, t) ∈ s.told ∧ fnv1aHash k'.2 = fnv1aHash k.2 ∧
      s.stepped i ≤ t + (3 * D + seconds S.cacheTtlUserStatusSecs + millis S.localCacheTtlMs) := by
  obtain ⟨rfl, hg⟩ := hg
  unfold LookAside.Ended at h
  rcases hg user rfl with hstage | ⟨text, hstage | hstage, htext⟩
  · rw [hstage] at h
    obtain ⟨t, hmem, hle⟩ := h
    refine ⟨i, g.request, t, hmem, rfl, ?_⟩
    omega
  · rw [hstage] at h
    obtain ⟨t, ht, hle⟩ := h
    obtain ⟨j, k', hmem, hhash⟩ := told_user hjson ht htext
    exact ⟨j, k', t, hmem, hhash, hle⟩
  · rw [hstage] at h
    obtain ⟨t, ht, hle⟩ := h
    obtain ⟨j, k', hmem, hhash⟩ := told_user hjson ht htext
    refine ⟨j, k', t, hmem, hhash, hle.trans ?_⟩
    show t + (2 * D + seconds S.cacheTtlUserStatusSecs) ≤ _
    omega

end Users

variable [DecidableEq ι] [DecidableEq ρ]

/-- In every run of validations on any number of replicas, each of which is done within `D`: a
    user that a call returns is one the Profile API has answered with, for a token with the same
    hash, to a call that had not started longer ago than the TTL of users, the TTL of L1 and
    three times `D`. -/
theorem users_recent {U : UserCodec}
    (hjson : ∀ user json, U.userToJson user = some json → U.userFromJson json = some user)
    (S : TokenSettings) (replica : ι → ρ) (D : ℕ) {init c : TokenConfig ι ρ}
    {acts : List (Act ι (Transport × String) (LookChoice ρ CacheKey AuthOp AuthOp.Ans))}
    (hinit : (tokenValidations U S replica).machine.init init)
    (hrun : (tokenValidations U S replica).machine.run init acts = some c)
    (htimely : (tokenValidations U S replica).machine.Meets (LookAside.Timely D) init acts)
    {i : ι} {k : Transport × String} {user : AuthenticatedUser}
    (hi : c.calls i = .returned k (.ok user)) :
    ∃ j k' t, (j, k', user, t) ∈ c.shared.told ∧ fnv1aHash k'.2 = fnv1aHash k.2 ∧
      c.shared.stepped i ≤
        t + (3 * D + seconds S.cacheTtlUserStatusSecs + millis S.localCacheTtlMs) := by
  obtain ⟨g, hg, hended⟩ :=
    LookAside.ended_of_meets (validateTokenAside_validated U S) hinit hrun htimely hi
  exact user_of_ended hjson hg hended

/-- The Profile API knows every token as user 1's. -/
def userFound : (o : AuthOp) → o.Ans
  | .allowRequest => true
  | .recordSuccess => ()
  | .recordFailure => ()
  | .cache (.l1Get _) => none
  | .cache (.l1Insert _ _) => ()
  | .cache (.l1Remove _) => ()
  | .cache (.l1InvalidatePrefix _) => ()
  | .cache (.redisGet _) => none
  | .cache (.redisMget _) => none
  | .cache (.redisSetEx _ _ _) => ()
  | .cache (.redisDel _) => ()
  | .send _ => some 200
  | .json => .ok ⟨some true, some "usr_550e8400-e29b-41d4-a716-446655440001", some "Test User 1"⟩
  | .validateToken _ => .response ⟨true, "550e8400-e29b-41d4-a716-446655440001", "Test User 1"⟩

/-- Call 0 asks the Profile API; five minutes later call 1, on another replica, finds the user in
    Redis. -/
def twoTokenValidations (token : String) :
    List (Act ℕ (Transport × String) (LookChoice ℕ CacheKey AuthOp AuthOp.Ans)) :=
  [.start 0 (.http, token), .step 0 (.layer true), .step 0 (.layer true),
    .step 0 (.answered userFound), .step 0 (.answered userFound), .step 0 (.layer true),
    .step 0 (.layer true), .env (.tick (seconds 300)), .start 1 (.grpc, token),
    .step 1 (.layer true), .step 1 (.layer true), .step 1 (.layer true)]

/-- The user of a call that returned one. -/
def asideUser (cs : CallState (Transport × String) (LookOp CacheKey String AuthOp)
    (LookOp.Ans AuthOp.Ans) (Except AppError AuthenticatedUser)) :
    Option ((Transport × String) × AuthenticatedUser) :=
  match cs with
  | .returned k (.ok user) => some (k, user)
  | _ => none

theorem returned_of_asideUser {cs : CallState (Transport × String) (LookOp CacheKey String AuthOp)
    (LookOp.Ans AuthOp.Ans) (Except AppError AuthenticatedUser)} {k : Transport × String}
    {user : AuthenticatedUser} (h : asideUser cs = some (k, user)) : cs = .returned k (.ok user) := by
  unfold asideUser at h
  split at h
  · cases h
    rfl
  · cases h

/-- Where the user of call 1 is from. -/
theorem users_recent_twoValidations : ∃ c : TokenConfig ℕ ℕ,
    (tokenValidations .plain ⟨300, 200⟩ id).machine.run
      ⟨LookAside.new, fun _ => .idle⟩ (twoTokenValidations "tok_user_1") = some c ∧
    ∃ user, c.calls 1 = .returned (.grpc, "tok_user_1") (.ok user) ∧
    ∃ j k' t, (j, k', user, t) ∈ c.shared.told ∧ fnv1aHash k'.2 = fnv1aHash "tok_user_1" ∧
      c.shared.stepped 1 ≤ t + (3 * seconds 5 + seconds 300 + millis 200) := by
  have hview : ((tokenValidations .plain ⟨300, 200⟩ id).machine.run
      (⟨LookAside.new, fun _ => .idle⟩ : TokenConfig ℕ ℕ) (twoTokenValidations "tok_user_1")).map
        (fun c => asideUser (c.calls 1)) = some (some ((.grpc, "tok_user_1"),
          ⟨0x550e8400e29b41d4a716446655440001#128, "Test User 1"⟩)) := by
    decide +kernel
  have htimely : (tokenValidations .plain ⟨300, 200⟩ id).machine.meetsAll (LookAside.isTimely (seconds 5))
      (⟨LookAside.new, fun _ => .idle⟩ : TokenConfig ℕ ℕ) (twoTokenValidations "tok_user_1") =
        true := by
    decide +kernel
  obtain ⟨c, hrun, hc⟩ := Option.map_eq_some_iff.mp hview
  have hi := returned_of_asideUser hc
  have hinit : (tokenValidations .plain ⟨300, 200⟩ id).machine.init
      (⟨LookAside.new, fun _ => .idle⟩ : TokenConfig ℕ ℕ) := ⟨rfl, fun _ => rfl⟩
  exact ⟨c, hrun, _, hi, users_recent plain_userJson ⟨300, 200⟩ id (seconds 5) hinit hrun
    (Machine.meets_of_meetsAll (LookAside.timely_of_isTimely (seconds 5)) htimely) hi⟩

end SocialApi.Clients
