import SocialApi.Auth
import SocialApi.Clients.TokenCache

/-!
# The two token validators on the same answer

One answer of the Profile API (the valid flag, a user id, a display name) reaches
`HttpTokenValidator` as a JSON body and `GrpcTokenValidator` as a
`ValidateTokenResponse`. Over HTTP a user id may carry the prefix `usr_`, which the HTTP
validator takes off (profile_client.rs:118–126); over gRPC the field is the bare UUID
(internal/v1/profile.proto), and the gRPC validator parses it as it is.

* `transportsAgree_iff`: for every token, cache, breaker and answer the two end in the
  same user or the same kind of error, with the same cache entry and the same breaker,
  exactly when the answer is not a new valid one with a user id `usr_<uuid>`.
* `prefixedUser_differs`: with such an answer HTTP returns the user and gRPC an internal
  error.
-/

namespace SocialApi.Auth

open SocialApi.Concurrent SocialApi.Clients

/-! ## One answer, two transports -/

/-- What the Profile API says of a token. -/
structure ProfileAnswer where
  valid : Bool
  userId : String
  displayName : String
  deriving DecidableEq, Repr

/-- The answer as a JSON body. -/
def ProfileAnswer.body (answer : ProfileAnswer) : ProfileBody :=
  ⟨some answer.valid, some answer.userId, some answer.displayName⟩

/-- The answer as a message. -/
def ProfileAnswer.response (answer : ProfileAnswer) : ValidateTokenResponse :=
  ⟨answer.valid, answer.userId, answer.displayName⟩

/-- What an authentication meets: the answer, the clock when it is admitted and when its
    outcome is recorded, and which Redis commands work. -/
structure Surroundings where
  answer : ProfileAnswer
  admittedAt : Instant
  recordedAt : Instant
  failedAt : Instant
  redisWorks : Cache.Op → Bool

/-- How an access to the cache goes. -/
def Surroundings.cacheChoice (w : Surroundings) (o : Cache.Op) : Cache.Choice :=
  match o with
  | .l1Get _ => .ok
  | .l1Insert _ _ => .ok
  | .l1Remove _ => .ok
  | .l1InvalidatePrefix _ => .removed []
  | o => if w.redisWorks o then .ok else .fail

/-- How an operation goes. -/
def Surroundings.choice (w : Surroundings) : AuthOp → AuthChoice
  | .allowRequest => .clock w.admittedAt w.admittedAt
  | .recordSuccess => .clock w.recordedAt w.failedAt
  | .recordFailure => .clock w.recordedAt w.failedAt
  | .cache o => .cache (w.cacheChoice o)
  | .send _ => .sent (some 200)
  | .json => .body (.ok w.answer.body)
  | .validateToken _ => .rpc (.response w.answer.response)

section Transports

variable (config : CircuitBreakerConfig) (U : UserCodec) (ttlSecs : ℕ) (w : Surroundings)

/-- A program of one authentication that runs on its own. -/
def alone {α : Type} (s : AuthState) (p : Authn α) : Option (AuthState × α) :=
  p.exec (fun s o => handle config s o (w.choice o)) s

/-- The same user, or the same kind of error. -/
def SameOutcome : Except AppError AuthenticatedUser → Except AppError AuthenticatedUser → Prop
  | .ok user, .ok user' => user = user'
  | .error error, .error error' => error.errorCode = error'.errorCode
  | _, _ => False

/-- Both validators end the same way and leave the same entry for the token, and both leave
    `authenticate_token` with the same result and the breaker in the same state. -/
def TransportsAgree (s : AuthState) (token : String) : Prop :=
  (∃ s₁ s₂ r₁ r₂, alone config w s (validateToken U ttlSecs .http token) = some (s₁, r₁) ∧
    alone config w s (validateToken U ttlSecs .grpc token) = some (s₂, r₂) ∧ SameOutcome r₁ r₂ ∧
    ∀ layer, s₁.cache.lookup layer (tokenCacheKey token) =
      s₂.cache.lookup layer (tokenCacheKey token)) ∧
  ∃ s₁ s₂ r, alone config w s (authenticateToken U ttlSecs .http token) = some (s₁, r) ∧
    alone config w s (authenticateToken U ttlSecs .grpc token) = some (s₂, r) ∧
    s₁.breaker = s₂.breaker

/-- The text `CacheManager::get` finds under the token's key. -/
def cachedText (s : AuthState) (token : String) : Option String :=
  match s.cache.l1 (tokenCacheKey token) with
  | some text => some text
  | none => if w.redisWorks (.redisGet (tokenCacheKey token)) then
      s.cache.redis (tokenCacheKey token) else none

/-- The cache has no user for the token, and the answer is a valid one whose user id is
    `usr_` and the text of a UUID. -/
def PrefixedUser (s : AuthState) (token : String) : Prop :=
  (cachedText w s token).bind U.userFromJson = none ∧ w.answer.valid = true ∧
    ∃ rest, w.answer.userId = "usr_" ++ rest ∧ (U.parseUuid rest).isSome

/-! ## What each validator makes of the answer -/

/-- The outcome of a validation that asks the Profile API. -/
def outcomeOf : Transport → Except AppError AuthenticatedUser
  | .http => parseProfile U w.answer.body
  | .grpc =>
    if w.answer.valid then
      match U.parseUuid w.answer.userId with
      | none => .error (.internal ("Invalid user_id from gRPC: " ++ w.answer.userId))
      | some userId => .ok ⟨userId, w.answer.displayName⟩
    else .error (.unauthorized "Token validation returned invalid")

theorem stripUsr_prefix (rest : String) : stripUsr ("usr_" ++ rest) = rest := by
  simp [stripUsr, String.toList_append]

/-- A text without the prefix is left as it is. -/
theorem stripUsr_eq_self {text : String} (h : ∀ rest, text ≠ "usr_" ++ rest) :
    stripUsr text = text := by
  unfold stripUsr
  split
  · rename_i rest htext
    refine absurd ?_ (h (String.ofList rest))
    rw [← String.toList_inj, htext]
    simp [String.toList_append]
  · rfl

/-- The two outcomes: the same, or internal errors on both sides, or, for a user id with the
    prefix, a user over HTTP and an internal error over gRPC. -/
theorem outcomeOf_cases (husr : ∀ rest, U.parseUuid ("usr_" ++ rest) = none) :
    outcomeOf U w .http = outcomeOf U w .grpc ∨
      (∃ m m', outcomeOf U w .http = .error (.internal m) ∧
        outcomeOf U w .grpc = .error (.internal m')) ∨
      (w.answer.valid = true ∧ ∃ rest userId m, w.answer.userId = "usr_" ++ rest ∧
        U.parseUuid rest = some userId ∧
        outcomeOf U w .http = .ok ⟨userId, w.answer.displayName⟩ ∧
        outcomeOf U w .grpc = .error (.internal m)) := by
  by_cases hvalid : w.answer.valid = true
  · have hhttp : outcomeOf U w .http = match U.parseUuid (stripUsr w.answer.userId) with
        | none => .error (.internal ("Invalid user_id format: " ++ w.answer.userId))
        | some userId => .ok ⟨userId, w.answer.displayName⟩ := by
      cases hid : U.parseUuid (stripUsr w.answer.userId) with
      | none =>
        simp only [outcomeOf, parseProfile, ProfileAnswer.body, Option.getD_some, hvalid, if_true, hid]
      | some userId =>
        simp only [outcomeOf, parseProfile, ProfileAnswer.body, Option.getD_some, hvalid, if_true, hid]
    have hgrpc : outcomeOf U w .grpc = match U.parseUuid w.answer.userId with
        | none => .error (.internal ("Invalid user_id from gRPC: " ++ w.answer.userId))
        | some userId => .ok ⟨userId, w.answer.displayName⟩ := by
      simp only [outcomeOf, hvalid, if_true]
    by_cases hrest : ∃ rest, w.answer.userId = "usr_" ++ rest
    · obtain ⟨rest, hrest⟩ := hrest
      rw [hrest, husr] at hgrpc
      rw [hrest, stripUsr_prefix] at hhttp
      cases hparse : U.parseUuid rest with
      | none =>
        rw [hparse] at hhttp
        exact Or.inr (Or.inl ⟨_, _, hhttp, hgrpc⟩)
      | some userId =>
        rw [hparse] at hhttp
        exact Or.inr (Or.inr ⟨hvalid, rest, userId, _, hrest, hparse, hhttp, hgrpc⟩)
    · rw [stripUsr_eq_self fun rest h => hrest ⟨rest, h⟩] at hhttp
      cases hparse : U.parseUuid w.answer.userId with
      | none =>
        rw [hparse] at hhttp hgrpc
        exact Or.inr (Or.inl ⟨_, _, hhttp, hgrpc⟩)
      | some userId =>
        rw [hparse] at hhttp hgrpc
        exact Or.inl (hhttp.trans hgrpc.symm)
  · left
    simp only [outcomeOf, parseProfile, ProfileAnswer.body, Option.getD_some, hvalid,
      Bool.false_eq_true, if_false]

/-! ## The runs -/

theorem alone_bind {α β : Type} (s : AuthState) (p : Authn α) (f : α → Authn β) :
    alone config w s (p.bind f) = (alone config w s p).bind fun r => alone config w r.1 (f r.2) :=
  Prog.exec_bind _ s p f

/-- Looking the token up leaves the breaker alone. -/
theorem alone_get (s : AuthState) (token : String) :
    ∃ s₀, s₀.breaker = s.breaker ∧
      alone config w s (authCache (Cache.get (tokenCacheKey token))) =
        some (s₀, cachedText w s token) := by
  unfold cachedText
  cases hl1 : s.cache.l1 (tokenCacheKey token) with
  | some text =>
    refine ⟨s, rfl, ?_⟩
    simp [alone, authCache, Cache.get, Cache.perform, Prog.perform, Prog.lift, Prog.exec, handle,
      Surroundings.choice, Surroundings.cacheChoice, Cache.handle, hl1]
  | none =>
    by_cases hworks : w.redisWorks (.redisGet (tokenCacheKey token)) = true
    · cases hredis : s.cache.redis (tokenCacheKey token) with
      | none =>
        refine ⟨s, rfl, ?_⟩
        simp [alone, authCache, Cache.get, Cache.perform, Prog.perform, Prog.lift, Prog.exec, handle,
          Surroundings.choice, Surroundings.cacheChoice, Cache.handle, hl1, hredis, hworks]
      | some text =>
        refine ⟨{ s with cache := s.cache.put .l1 (tokenCacheKey token) (some text) }, rfl, ?_⟩
        simp [alone, authCache, Cache.get, Cache.perform, Prog.perform, Prog.lift, Prog.exec, handle,
          Surroundings.choice, Surroundings.cacheChoice, Cache.handle, hl1, hredis, hworks]
    · refine ⟨s, rfl, ?_⟩
      simp [alone, authCache, Cache.get, Cache.perform, Prog.perform, Prog.lift, Prog.exec, handle,
        Surroundings.choice, Surroundings.cacheChoice, Cache.handle, hl1, hworks]

/-- So does storing a user. -/
theorem alone_storeUser (s : AuthState) (token : String) (user : AuthenticatedUser) :
    ∃ s₁, s₁.breaker = s.breaker ∧
      alone config w s (storeUser U ttlSecs token user) = some (s₁, .ok user) := by
  unfold storeUser
  cases hjson : U.userToJson user with
  | none => exact ⟨s, rfl, rfl⟩
  | some json =>
    by_cases hworks : w.redisWorks (.redisSetEx (tokenCacheKey token) json ttlSecs) = true
    · refine ⟨⟨s.breaker, (s.cache.put .l1 (tokenCacheKey token) (some json)).put .redis
        (tokenCacheKey token) (some json)⟩, rfl, ?_⟩
      simp [alone, authCache, Cache.set, Cache.perform, Prog.perform, Prog.lift, Prog.exec, handle,
        Surroundings.choice, Surroundings.cacheChoice, Cache.handle, hworks]
    · refine ⟨{ s with cache := s.cache.put .l1 (tokenCacheKey token) (some json) }, rfl, ?_⟩
      simp [alone, authCache, Cache.set, Cache.perform, Prog.perform, Prog.lift, Prog.exec, handle,
        Surroundings.choice, Surroundings.cacheChoice, Cache.handle, hworks]

/-- Over HTTP, the body is parsed. -/
theorem alone_httpValidate (s : AuthState) (token : String) :
    alone config w s (httpValidate U ttlSecs token) =
      alone config w s (match parseProfile U w.answer.body with
        | .error error => .ret (.error error)
        | .ok user => storeUser U ttlSecs token user) := rfl

/-- Over gRPC, the fields of the response are looked at. -/
theorem alone_grpcValidate (s : AuthState) (token : String) :
    alone config w s (grpcValidate U ttlSecs token) =
      alone config w s (if w.answer.valid then
        match U.parseUuid w.answer.userId with
        | none => .ret (.error (.internal ("Invalid user_id from gRPC: " ++ w.answer.userId)))
        | some userId => storeUser U ttlSecs token ⟨userId, w.answer.displayName⟩
        else .ret (.error (.unauthorized "Token validation returned invalid"))) := rfl

/-- Asking the Profile API: the answer's outcome, and a user is stored. -/
theorem alone_ask (s : AuthState) (token : String) (transport : Transport) :
    alone config w s (match transport with
      | .http => httpValidate U ttlSecs token
      | .grpc => grpcValidate U ttlSecs token) =
      match outcomeOf U w transport with
      | .ok user => alone config w s (storeUser U ttlSecs token user)
      | .error error => some (s, .error error) := by
  cases transport with
  | http =>
    dsimp only
    rw [alone_httpValidate]
    simp only [outcomeOf]
    cases parseProfile U w.answer.body <;> rfl
  | grpc =>
    dsimp only
    rw [alone_grpcValidate]
    simp only [outcomeOf]
    by_cases hvalid : w.answer.valid = true
    · simp only [hvalid, if_true]
      cases U.parseUuid w.answer.userId <;> rfl
    · simp only [hvalid]
      rfl

/-- A validation: the cached user, or the answer's outcome. -/
theorem alone_validate (s : AuthState) (token : String) :
    ∃ s₀, s₀.breaker = s.breaker ∧ ∀ transport,
      alone config w s (validateToken U ttlSecs transport token) =
        match (cachedText w s token).bind U.userFromJson with
        | some user => some (s₀, .ok user)
        | none =>
          match outcomeOf U w transport with
          | .ok user => alone config w s₀ (storeUser U ttlSecs token user)
          | .error error => some (s₀, .error error) := by
  obtain ⟨s₀, hbreaker, hget⟩ := alone_get config w s token
  refine ⟨s₀, hbreaker, fun transport => ?_⟩
  unfold validateToken
  rw [Prog.bind_eq, alone_bind, hget, Option.bind_some]
  dsimp only
  cases (cachedText w s token).bind U.userFromJson with
  | some user => rfl
  | none => exact alone_ask config U ttlSecs w s₀ token transport

/-- Recording an outcome has a result. -/
theorem alone_record (s : AuthState) (r : Except AppError AuthenticatedUser) :
    ∃ q, alone config w s (recordOutcome r) = some q := by
  cases r with
  | ok user => exact ⟨_, rfl⟩
  | error error => cases error <;> exact ⟨_, rfl⟩

/-- An authentication: refused, or a validation whose outcome is recorded. -/
theorem alone_authenticate (s : AuthState) (token : String) (transport : Transport) :
    alone config w s (authenticateToken U ttlSecs transport token) =
      let admitted := CircuitBreaker.allowRequest config w.admittedAt s.breaker
      let s' : AuthState := { s with breaker := admitted.1 }
      if admitted.2 then
        (alone config w s' (validateToken U ttlSecs transport token)).bind fun q =>
          alone config w q.1 (recordOutcome q.2)
      else some (s', .error .serviceUnavailable) := by
  show alone config w _ (if (CircuitBreaker.allowRequest config w.admittedAt s.breaker).2 then
    (validateToken U ttlSecs transport token).bind recordOutcome else _) = _
  dsimp only
  split_ifs
  · exact alone_bind config w _ _ _
  · rfl

/-! ## Agreement -/

variable {config U ttlSecs w} {s : AuthState} {token : String}

/-- Without a new user with the prefix both validators leave the same state behind, and their
    outcomes are the same up to the message of an internal error. -/
theorem validations_agree (husr : ∀ rest, U.parseUuid ("usr_" ++ rest) = none)
    (h : ¬ PrefixedUser U w s token) :
    ∃ s₁ r₁ r₂, s₁.breaker = s.breaker ∧
      alone config w s (validateToken U ttlSecs .http token) = some (s₁, r₁) ∧
      alone config w s (validateToken U ttlSecs .grpc token) = some (s₁, r₂) ∧
      (r₁ = r₂ ∨ ∃ m m', r₁ = .error (.internal m) ∧ r₂ = .error (.internal m')) := by
  obtain ⟨s₀, hbreaker, hrun⟩ := alone_validate config U ttlSecs w s token
  have hhttp := hrun .http
  have hgrpc := hrun .grpc
  cases hcached : (cachedText w s token).bind U.userFromJson with
  | some user =>
    rw [hcached] at hhttp hgrpc
    exact ⟨s₀, _, _, hbreaker, hhttp, hgrpc, Or.inl rfl⟩
  | none =>
    rw [hcached] at hhttp hgrpc
    rcases outcomeOf_cases U w husr with hsame | ⟨m, m', hm, hm'⟩ |
      ⟨hvalid, rest, userId, m, hrest, hparse, -, -⟩
    · rw [hsame] at hhttp
      cases hout : outcomeOf U w .grpc with
      | error error =>
        rw [hout] at hhttp hgrpc
        exact ⟨s₀, _, _, hbreaker, hhttp, hgrpc, Or.inl rfl⟩
      | ok user =>
        rw [hout] at hhttp hgrpc
        obtain ⟨s₁, hs₁, hstore⟩ := alone_storeUser config U ttlSecs w s₀ token user
        exact ⟨s₁, _, _, hs₁.trans hbreaker, hhttp.trans hstore, hgrpc.trans hstore, Or.inl rfl⟩
    · rw [hm] at hhttp
      rw [hm'] at hgrpc
      exact ⟨s₀, _, _, hbreaker, hhttp, hgrpc, Or.inr ⟨m, m', rfl, rfl⟩⟩
    · exact absurd ⟨hcached, hvalid, rest, hrest, by rw [hparse]; rfl⟩ h

theorem sameOutcome_of_eq {r₁ r₂ : Except AppError AuthenticatedUser}
    (h : r₁ = r₂ ∨ ∃ m m', r₁ = .error (.internal m) ∧ r₂ = .error (.internal m')) :
    SameOutcome r₁ r₂ := by
  rcases h with rfl | ⟨m, m', rfl, rfl⟩
  · cases r₁ with
    | ok user => exact rfl
    | error error => exact rfl
  · exact rfl

/-- What is recorded does not depend on the message of an internal error. -/
theorem recordOutcome_eq {r₁ r₂ : Except AppError AuthenticatedUser}
    (h : r₁ = r₂ ∨ ∃ m m', r₁ = .error (.internal m) ∧ r₂ = .error (.internal m')) :
    recordOutcome r₁ = recordOutcome r₂ := by
  rcases h with rfl | ⟨m, m', rfl, rfl⟩ <;> rfl

/-- With a new user with the prefix one validator returns the user and the other an error. -/
theorem validations_differ (husr : ∀ rest, U.parseUuid ("usr_" ++ rest) = none)
    (h : PrefixedUser U w s token) : ∃ s₁ s₂ user error,
      alone config w s (validateToken U ttlSecs .http token) = some (s₁, .ok user) ∧
      alone config w s (validateToken U ttlSecs .grpc token) = some (s₂, .error error) := by
  obtain ⟨hcached, hvalid, rest, hrest, hparse⟩ := h
  obtain ⟨userId, hparse⟩ := Option.isSome_iff_exists.mp hparse
  obtain ⟨s₀, -, hrun⟩ := alone_validate config U ttlSecs w s token
  have hhttp := hrun .http
  have hgrpc := hrun .grpc
  rw [hcached] at hhttp hgrpc
  have hok : outcomeOf U w .http = .ok ⟨userId, w.answer.displayName⟩ := by
    simp [outcomeOf, parseProfile, ProfileAnswer.body, hvalid, hrest, stripUsr_prefix, hparse]
  have herror : outcomeOf U w .grpc =
      .error (.internal ("Invalid user_id from gRPC: " ++ w.answer.userId)) := by
    simp [outcomeOf, hvalid, hrest, husr]
  rw [hok] at hhttp
  rw [herror] at hgrpc
  obtain ⟨s₁, -, hstore⟩ := alone_storeUser config U ttlSecs w s₀ token
    ⟨userId, w.answer.displayName⟩
  exact ⟨s₁, s₀, _, _, hhttp.trans hstore, hgrpc⟩

end Transports

/-- With a new user with the prefix the transports do not agree. -/
theorem not_agree_of_prefixed (config : CircuitBreakerConfig) {U : UserCodec} (ttlSecs : ℕ)
    {w : Surroundings} {s : AuthState} {token : String}
    (husr : ∀ rest, U.parseUuid ("usr_" ++ rest) = none) (h : PrefixedUser U w s token) :
    ¬ TransportsAgree config U ttlSecs w s token := by
  rintro ⟨⟨s₁, s₂, r₁, r₂, hhttp, hgrpc, hsame, -⟩, -⟩
  obtain ⟨s₁', s₂', user, error, hhttp', hgrpc'⟩ :=
    validations_differ husr h
  cases hhttp.symm.trans hhttp'
  cases hgrpc.symm.trans hgrpc'
  exact hsame

/-- The two transports agree on every answer but a new valid one with a user id `usr_<uuid>`,
    which only the HTTP validator accepts. -/
theorem transportsAgree_iff (config : CircuitBreakerConfig) (U : UserCodec) (ttlSecs : ℕ)
    (w : Surroundings) (s : AuthState) (token : String)
    (husr : ∀ rest, U.parseUuid ("usr_" ++ rest) = none) :
    TransportsAgree config U ttlSecs w s token ↔ ¬ PrefixedUser U w s token := by
  constructor
  · exact fun hagree h => not_agree_of_prefixed config ttlSecs husr h hagree
  · intro h
    obtain ⟨s₁, r₁, r₂, -, hhttp, hgrpc, hr⟩ :=
      validations_agree husr h
    refine ⟨⟨s₁, s₁, r₁, r₂, hhttp, hgrpc, sameOutcome_of_eq hr, fun _ => rfl⟩, ?_⟩
    rw [alone_authenticate, alone_authenticate]
    dsimp only
    -- the state in which an admitted request is validated
    have hadmitted : ¬ PrefixedUser U w
        { s with breaker := (CircuitBreaker.allowRequest config w.admittedAt s.breaker).1 }
        token := h
    split_ifs
    · obtain ⟨s₂, q₁, q₂, -, hhttp', hgrpc', hq⟩ :=
        validations_agree husr hadmitted
      obtain ⟨q, hrecord⟩ := alone_record config w s₂ q₁
      refine ⟨q.1, q.1, q.2, ?_, ?_, rfl⟩
      · rw [hhttp', Option.bind_some, hrecord]
      · rw [hgrpc', Option.bind_some, ← recordOutcome_eq hq, hrecord]
    · exact ⟨_, _, _, rfl, rfl, rfl⟩

/-! ## The documented form of a user id -/

/-- No text with the prefix is a UUID. -/
theorem parseStr_prefixed (rest : String) : Uuid.parseStr ("usr_" ++ rest) = none := by
  have hlist : ("usr_" ++ rest).toList = 'u' :: 's' :: 'r' :: '_' :: rest.toList := by
    rw [String.toList_append]
    rfl
  unfold Uuid.parseStr
  rw [hlist]
  dsimp only
  split_ifs with h32 h36 h38 h45
  · rfl
  · rfl
  · exact absurd (Option.some.inj h38.2.1) (show 'u' ≠ '\x7b' by decide)
  · have hsecond : ("urn:uuid:".toList)[1]? = some 'r' := by decide
    rw [← h45.2] at hsecond
    exact absurd (Option.some.inj hsecond) (show 's' ≠ 'r' by decide)
  · rfl

/-- The Profile API answers with a user id, in the given form; everything works. -/
def answering (userId : String) : Surroundings where
  answer := ⟨true, userId, "Test User 1"⟩
  admittedAt := 0
  recordedAt := 1
  failedAt := 1
  redisWorks _ := true

/-- A closed breaker and an empty cache. -/
def coldStart : AuthState := ⟨CircuitBreaker.new, .empty⟩

/-- The bare UUID means the same on both transports. -/
theorem transportsAgree_iff_bareUuid : TransportsAgree defaultBreaker .plain 300
    (answering "550e8400-e29b-41d4-a716-446655440001") coldStart "tok_user_1" := by
  refine (transportsAgree_iff defaultBreaker .plain 300 _ _ _ parseStr_prefixed).mpr ?_
  rintro ⟨-, -, rest, hrest, -⟩
  have hhead := congrArg (fun text : String => text.toList.head?) hrest
  simp [answering, String.toList_append] at hhead

/-- The documented `usr_<uuid>` does not. -/
theorem prefixedUser_differs : ¬ TransportsAgree defaultBreaker .plain 300
    (answering "usr_550e8400-e29b-41d4-a716-446655440001") coldStart "tok_user_1" := by
  refine not_agree_of_prefixed defaultBreaker 300 parseStr_prefixed ⟨rfl, rfl, ?_⟩
  exact ⟨"550e8400-e29b-41d4-a716-446655440001", by decide, by decide +kernel⟩

end SocialApi.Auth
