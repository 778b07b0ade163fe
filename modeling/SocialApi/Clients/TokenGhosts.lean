import SocialApi.Clients.ProfileClient
import SocialApi.Concurrent.Pool

/-!
# Validations with their history

Any number of validations share a cache, and the state has their history: which user the
Profile API has answered with for which token, whose answer an entry of the cache is,
and whose answer a call has found there.

* `OwnUser`: a user is returned only for a token the Profile API has answered with that user.
* `TokensApart`: no two tokens of a run have one hash.
-/

namespace SocialApi.Clients

open SocialApi.Concurrent

/-! ## Validations with their history -/

/-- The cache, and what has happened so far; no outcome depends on anything but the cache. -/
structure Validations (ι : Type) where
  cache : Cache.CacheState
  /-- The token in the request that a call has sent. -/
  asked : ι → Option String
  /-- The users the Profile API has answered with: to which call, for which token. -/
  answered : List (ι × String × AuthenticatedUser)
  /-- The call whose answer an entry is. -/
  origin : Cache.Layer → CacheKey → Option ι
  /-- The call whose answer a call has found in the cache. -/
  found : ι → Option ι

/-- What an operation leaves open. -/
inductive ValidateChoice where
  | cache (x : Cache.Choice)
  | sent (status : Option ℕ)
  | body (result : Except String ProfileBody)
  | rpc (outcome : RpcOutcome)
  | evict (layer : Cache.Layer) (key : CacheKey)

/-- The user in the body of a response. -/
def bodyUser (U : UserCodec) (result : Except String ProfileBody) : Option AuthenticatedUser :=
  match result with
  | .ok body => (parseProfile U body).toOption
  | .error _ => none

/-- The user an RPC answers with. -/
def RpcOutcome.user (U : UserCodec) : RpcOutcome → Option AuthenticatedUser
  | .response resp =>
    if resp.valid then (U.parseUuid resp.userId).map fun userId => ⟨userId, resp.displayName⟩
    else none
  | _ => none

variable {ι : Type}

namespace Validations

/-- The cache, and nothing has happened yet. -/
def new (cache : Cache.CacheState) : Validations ι :=
  ⟨cache, fun _ => none, [], fun _ _ => none, fun _ => none⟩

/-- Call `i` has sent a request with the token; what it may have found is of no use to it. -/
def ask [DecidableEq ι] (s : Validations ι) (i : ι) (token : String) : Validations ι :=
  { s with asked := Function.update s.asked i (some token),
           found := Function.update s.found i none }

/-- The Profile API has answered call `i`, for this token. -/
def answer (s : Validations ι) (i : ι) (token : Option String) (user : Option AuthenticatedUser) :
    Validations ι :=
  match token, user with
  | some token, some user => { s with answered := (i, token, user) :: s.answered }
  | _, _ => s

@[simp] theorem answer_cache (s : Validations ι) (i : ι) (token : Option String)
    (user : Option AuthenticatedUser) : (s.answer i token user).cache = s.cache := by
  unfold answer
  split <;> rfl

@[simp] theorem answer_origin (s : Validations ι) (i : ι) (token : Option String)
    (user : Option AuthenticatedUser) : (s.answer i token user).origin = s.origin := by
  unfold answer
  split <;> rfl

/-- What is answered after an answer was answered before, or is for the token asked about. -/
theorem mem_answer {s : Validations ι} {i : ι} {token : Option String}
    {user : Option AuthenticatedUser} {e : ι × String × AuthenticatedUser}
    (h : e ∈ (s.answer i token user).answered) : e ∈ s.answered ∨ token = some e.2.1 := by
  unfold answer at h
  split at h
  · rcases List.mem_cons.mp h with rfl | hold
    · exact Or.inr rfl
    · exact Or.inl hold
  · exact Or.inl h

/-- The layer and key that a read looks at. -/
def readOf : Cache.Op → Option (Cache.Layer × CacheKey)
  | .l1Get key => some (.l1, key)
  | .redisGet key => some (.redis, key)
  | _ => none

variable [DecidableEq ι]

/-- What an access to the cache by call `i` means: it has found an entry, or stored one. -/
def access (s : Validations ι) (i : ι) (o : Cache.Op) (x : Cache.Choice)
    (cache : Cache.CacheState) : Validations ι :=
  match readOf o, o.store, x with
  | some (layer, key), _, .ok =>
    if (s.cache.lookup layer key).isSome then
      { s with cache := cache, found := Function.update s.found i (s.origin layer key) }
    else { s with cache := cache }
  | none, some (layer, key, _), .ok =>
    { s with
      cache := cache
      origin := Function.update s.origin layer
        (Function.update (s.origin layer) key (some ((s.found i).getD i))) }
  | _, _, _ => { s with cache := cache }

theorem access_answered (s : Validations ι) (i : ι) (o : Cache.Op) (x : Cache.Choice)
    (cache : Cache.CacheState) : (s.access i o x cache).answered = s.answered := by
  unfold access
  split
  · split_ifs <;> rfl
  · rfl
  · rfl

/-- What one operation of call `i` does. -/
def handle (U : UserCodec) (s : Validations ι) (i : ι) :
    (o : AuthOp) → ValidateChoice → Option (Validations ι × o.Ans)
  | .cache o, .cache x => (Cache.handle s.cache o x).map fun r => (s.access i o x r.1, r.2)
  | .send token, .sent status => some (s.ask i token, status)
  | .json, .body result => some (s.answer i (s.asked i) (bodyUser U result), result)
  | .validateToken token, .rpc outcome =>
    some ((s.ask i token).answer i (some token) (outcome.user U), outcome)
  | _, _ => none

/-- An entry of the cache expires or is evicted. -/
def evict (s : Validations ι) : ValidateChoice → Option (Validations ι)
  | .evict layer key => some { s with cache := Cache.evict s.cache layer key }
  | _ => none

end Validations

/-- Validations over an empty cache, each with its transport and its token. -/
def validations [DecidableEq ι] (U : UserCodec) (ttlSecs : ℕ) : Pool ι (Validations ι)
    (Transport × String) AuthOp
    AuthOp.Ans (Except AppError AuthenticatedUser) ValidateChoice where
  init s := s = .new .empty
  prog k := validateToken U ttlSecs k.1 k.2
  start s _ _ := some s
  handle := Validations.handle U
  drop s _ := some s
  env := Validations.evict

/-- A configuration of validations. -/
abbrev ValidateConfig (ι : Type) :=
  Configuration ι (Validations ι) (Transport × String) AuthOp AuthOp.Ans
    (Except AppError AuthenticatedUser)

/-- Every user returned for a token is one the Profile API has answered with for that very
    token, to this call or to an earlier one whose entry this call has found. -/
def OwnUser (c : ValidateConfig ι) : Prop :=
  ∀ i k user, c.calls i = .returned k (.ok user) →
    ∃ j, (j = i ∨ c.shared.found i = some j) ∧ (j, k.2, user) ∈ c.shared.answered

/-- The tokens that are validated in a run. -/
def validatedTokens (acts : List (Act ι (Transport × String) ValidateChoice)) : Set String :=
  {token | ∃ i transport, Act.start i (transport, token) ∈ acts}

/-- No two different tokens among those validated have one hash. -/
def TokensApart (acts : List (Act ι (Transport × String) ValidateChoice)) : Prop :=
  Set.InjOn fnv1aHash (validatedTokens acts)

/-! ## How far a validation is -/

/-- What a validation has. -/
inductive TokenStage where
  /-- Nothing yet. -/
  | looking
  /-- A text from the cache. -/
  | found (text : String)
  /-- A request sent, but no user. -/
  | asked
  /-- The user the Profile API has answered with. -/
  | told (user : AuthenticatedUser)

/-- The token and what there is for it. -/
structure TokenGhost where
  token : String
  stage : TokenStage

namespace TokenGhost

/-- The operations allowed. -/
def asks (U : UserCodec) (g : TokenGhost) : AuthOp → Prop
  | .cache (.l1Get key) => g.stage = .looking ∧ key = tokenCacheKey g.token
  | .cache (.redisGet key) => g.stage = .looking ∧ key = tokenCacheKey g.token
  | .cache (.l1Insert key text) => key = tokenCacheKey g.token ∧
    (g.stage = .found text ∨ ∃ user, g.stage = .told user ∧ U.userToJson user = some text)
  | .cache (.redisSetEx key text _) => key = tokenCacheKey g.token ∧
    ∃ user, g.stage = .told user ∧ U.userToJson user = some text
  | .send token => token = g.token
  | .validateToken token => token = g.token
  | .json => g.stage = .asked
  | _ => False

/-- What there is after an answer of the Profile API. -/
def heard : Option AuthenticatedUser → TokenStage
  | some user => .told user
  | none => .asked

/-- What there is after the answer to an operation. -/
def next (U : UserCodec) (g : TokenGhost) : (o : AuthOp) → o.Ans → TokenGhost
  | .cache (.l1Get _), some text => ⟨g.token, .found text⟩
  | .cache (.redisGet _), some text => ⟨g.token, .found text⟩
  | .send _, _ => ⟨g.token, .asked⟩
  | .json, result => ⟨g.token, heard (bodyUser U result)⟩
  | .validateToken _, outcome => ⟨g.token, heard (outcome.user U)⟩
  | _, _ => g

@[simp] theorem next_token (U : UserCodec) (g : TokenGhost) (o : AuthOp) (r : o.Ans) :
    (g.next U o r).token = g.token := by
  unfold next
  split <;> rfl

end TokenGhost

/-- Looking a token up, asking and storing, as a protocol. -/
def tokenProtocol (U : UserCodec) : Protocol AuthOp AuthOp.Ans TokenGhost where
  asks := TokenGhost.asks U
  answers g o r g' := g' = g.next U o r

/-- A user that is returned is the one the Profile API has answered with, or the one in the text
    from the cache. -/
def Tokened (U : UserCodec) (k : Transport × String) (g : TokenGhost)
    (result : Except AppError AuthenticatedUser) : Prop :=
  g.token = k.2 ∧ ∀ user, result = .ok user →
    g.stage = .told user ∨ ∃ text, g.stage = .found text ∧ U.userFromJson text = some user

section Programs

variable {U : UserCodec} {ttlSecs : ℕ} {token : String} {transport : Transport}

theorem tokened_error {stage : TokenStage} (error : AppError) :
    Tokened U (transport, token) ⟨token, stage⟩ (.error error) :=
  ⟨rfl, fun user h => by cases h⟩

theorem storeUser_token (user : AuthenticatedUser) :
    (tokenProtocol U).Obeys (Tokened U (transport, token)) ⟨token, .told user⟩
      (storeUser U ttlSecs token user) := by
  have hreturn : Tokened U (transport, token) ⟨token, .told user⟩ (.ok user) :=
    ⟨rfl, fun user' h => Or.inl (by rw [Except.ok.inj h])⟩
  unfold storeUser
  cases hjson : U.userToJson user with
  | none => exact hreturn
  | some json =>
    refine ⟨⟨rfl, Or.inr ⟨user, rfl, hjson⟩⟩, ?_⟩
    rintro r g' rfl
    refine ⟨⟨rfl, user, rfl, hjson⟩, ?_⟩
    rintro r g' rfl
    exact hreturn

theorem httpValidate_token {stage : TokenStage} :
    (tokenProtocol U).Obeys (Tokened U (transport, token)) ⟨token, stage⟩
      (httpValidate U ttlSecs token) := by
  unfold httpValidate
  refine ⟨rfl, ?_⟩
  rintro (_ | status) g rfl
  · exact tokened_error _
  · show (tokenProtocol U).Obeys (Tokened U (transport, token)) ⟨token, .asked⟩ (if _ then _ else _)
    split_ifs
    · exact tokened_error _
    · refine ⟨rfl, ?_⟩
      rintro (e | body) g rfl
      · exact tokened_error _
      · simp only [TokenGhost.next, bodyUser, Prog.ret_bind]
        cases parseProfile U body with
        | error e => exact tokened_error _
        | ok user => exact storeUser_token user
    · exact tokened_error _

theorem grpcValidate_token {stage : TokenStage} :
    (tokenProtocol U).Obeys (Tokened U (transport, token)) ⟨token, stage⟩
      (grpcValidate U ttlSecs token) := by
  unfold grpcValidate
  refine ⟨rfl, ?_⟩
  rintro (resp | unauthenticated | _) g rfl
  · show (tokenProtocol U).Obeys (Tokened U (transport, token))
      ⟨token, TokenGhost.heard (if resp.valid then (U.parseUuid resp.userId).map fun userId =>
        ⟨userId, resp.displayName⟩ else none)⟩ (if resp.valid then _ else _)
    by_cases hvalid : resp.valid = true
    · rw [if_pos hvalid, if_pos hvalid]
      cases U.parseUuid resp.userId with
      | none => exact tokened_error _
      | some userId => exact storeUser_token _
    · rw [if_neg hvalid, if_neg hvalid]
      exact tokened_error _
  · cases unauthenticated
    · exact tokened_error _
    · exact tokened_error _
  · exact tokened_error _

/-- Asking the Profile API, whatever is left from the cache. -/
theorem ask_token {stage : TokenStage} : (tokenProtocol U).Obeys (Tokened U (transport, token))
    ⟨token, stage⟩ (match transport with
      | .http => httpValidate U ttlSecs token
      | .grpc => grpcValidate U ttlSecs token) := by
  cases transport with
  | http => exact httpValidate_token
  | grpc => exact grpcValidate_token

theorem validateToken_token (U : UserCodec) (ttlSecs : ℕ) (transport : Transport) (token : String) :
    (tokenProtocol U).Obeys (Tokened U (transport, token)) ⟨token, .looking⟩
      (validateToken U ttlSecs transport token) := by
  have hgo : ∀ text, (tokenProtocol U).Obeys (Tokened U (transport, token)) ⟨token, .found text⟩
      (match U.userFromJson text with
        | some user => .ret (.ok user)
        | none =>
          match transport with
          | .http => httpValidate U ttlSecs token
          | .grpc => grpcValidate U ttlSecs token) := by
    intro text
    cases hjson : U.userFromJson text with
    | some user => exact ⟨rfl, fun user' h => Or.inr ⟨text, rfl, by rw [hjson, Except.ok.inj h]⟩⟩
    | none => exact ask_token
  unfold validateToken
  refine ⟨⟨rfl, rfl⟩, ?_⟩
  rintro (_ | text) g rfl
  · refine ⟨⟨rfl, rfl⟩, ?_⟩
    rintro (_ | text) g rfl
    · exact ask_token
    · refine ⟨⟨rfl, Or.inl rfl⟩, ?_⟩
      rintro r g rfl
      exact hgo text
  · exact hgo text

end Programs

end SocialApi.Clients
