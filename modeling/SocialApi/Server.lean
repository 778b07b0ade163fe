import SocialApi.Cache.Touched
import SocialApi.Clients.TokenAge
import SocialApi.Grpc.LikesService
import SocialApi.Middleware.ReadAddress

/-!
# Whole requests

A request from its headers to its answer, over HTTP (`handlers/likes.rs`, `extractors/auth.rs`)
or over gRPC (`grpc/likes_service.rs`, `grpc/interceptors`): who is asking, the rate limit, the
checks of the handler, the call of the service. Any number of requests run in one process,
interleaved at every access to what they share: the tables, the one cache of the validators and
the services, the two breakers, the rate limiter's sorted sets and the leaderboards.

The order of the steps differs: over HTTP the extractors of axum run before the handler and so
before the limit, over gRPC everything but the token is checked after the limit, and public reads
are limited first over both. The calls themselves are those of `SocialApi.Handlers` and
`SocialApi.Grpc` for an authenticated user within the limit.

Deviations: a path that axum does not route is answered at once, and response headers are left
out.
-/

namespace SocialApi.Server

open SocialApi.Concurrent SocialApi.Clients SocialApi.Services SocialApi.Handlers
open SocialApi.Streams (Status appErrorToStatus)

/-! ## What requests share -/

/-- The settings, and what the process takes from elsewhere. -/
structure Setup where
  service : Services.Config
  app : Handlers.AppState
  codec : Codec
  users : UserCodec
  boards : Leaderboard.BoardLibs
  profile : CircuitBreakerConfig
  cacheTtlUserStatusSecs : ℕ
  internalTransport : Transport
  rateLimitWritePerMinute : ℕ
  rateLimitReadPerMinute : ℕ

/-- What the requests share. -/
structure State (ι : Type) where
  world : World ι
  profileBreaker : Inner
  limiter : RateLimit.Shared ι Unit
  zsets : TimeWindow → Leaderboard.SortedSet
  l1Zsets : TimeWindow → ℤ → ℤ → Option (List (String × Leaderboard.F64))

/-- The operations of a request. -/
inductive Op where
  | auth (o : AuthOp)
  | limit (o : RateLimit.Op)
  | svc (o : SvcOp)
  | board (o : Leaderboard.BoardOp)

@[reducible] def Op.Ans : Op → Type
  | auth o => o.Ans
  | limit o => o.Ans
  | svc o => o.Ans
  | board o => o.Ans

/-- What an operation leaves open. -/
inductive Choice where
  | auth (x : Auth.AuthChoice)
  | limit (x : RateLimit.Choice)
  | svc (x : SvcChoice)
  | board (x : Leaderboard.BoardChoice)

section State

variable {ι : Type}

/-- The profile breaker and the cache. -/
def State.auth (s : State ι) : Auth.AuthState := ⟨s.profileBreaker, s.world.cache⟩

def State.withAuth (s : State ι) (a : Auth.AuthState) : State ι :=
  { s with profileBreaker := a.breaker, world := { s.world with cache := a.cache } }

/-- The tables, the cache and the sorted sets. -/
def State.boards (s : State ι) : Leaderboard.Boards :=
  ⟨s.world.db.store.committed, s.world.cache, s.zsets, s.l1Zsets⟩

def State.withBoards (s : State ι) (b : Leaderboard.Boards) : State ι :=
  { s with world := { s.world with cache := b.cache }, zsets := b.zsets, l1Zsets := b.l1Zsets }

variable [DecidableEq ι]

/-- What one operation of request `i` does. -/
def handle (S : Setup) (s : State ι) (i : ι) : (o : Op) → Choice → Option (State ι × o.Ans)
  | .auth o, .auth x => (Auth.handle S.profile s.auth o x).map fun r => (s.withAuth r.1, r.2)
  | .limit o, .limit x =>
    (RateLimit.handle (fun _ => ()) s.limiter i o x).map fun r => ({ s with limiter := r.1 }, r.2)
  | .svc o, .svc x =>
    (Services.handle S.service s.world i o x).map fun r => ({ s with world := r.1 }, r.2)
  | .board o, .board x =>
    (Leaderboard.handle S.boards s.boards o x).map fun r => (s.withBoards r.1, r.2)
  | _, _ => none

/-- An entry of the cache, a range of a leaderboard or a key of the limiter expires. -/
def expire (s : State ι) : Choice → Option (State ι)
  | .svc x => (Services.evict s.world x).map fun world => { s with world := world }
  | .limit x => (RateLimit.env s.limiter x).map fun limiter => { s with limiter := limiter }
  | .board (.expireRange window start stop) =>
    let entries := Function.update (s.l1Zsets window) start
      (Function.update (s.l1Zsets window start) stop none)
    some { s with l1Zsets := Function.update s.l1Zsets window entries }
  | _ => none

/-! ### What an operation changes -/

/-- The layer, key and value that an operation stores, if it stores one. -/
def Op.store : Op → Option (Cache.Layer × CacheKey × String)
  | auth (.cache o) => o.store
  | svc (.cache o) => o.store
  | board (.cache o) => o.store
  | _ => none

section Lookup

variable {layer : Cache.Layer} {key : CacheKey} {v : String}

/-- An entry that is there after an access to the cache was there before, or is what it stores. -/
theorem cache_lookup {c c' : Cache.CacheState} {o : Cache.Op} {x : Cache.Choice} {r : o.Ans}
    (h : Cache.handle c o x = some (c', r)) (hv : c'.lookup layer key = some v) :
    c.lookup layer key = some v ∨ o.store = some (layer, key, v) := by
  rcases Cache.handle_lookup h layer key with hsame | hnone | ⟨v', hstore, hv'⟩
  · left
    rw [← hsame]
    exact hv
  · simp [hnone] at hv
  · right
    rw [hstore, Option.some.inj (hv.symm.trans hv')]

theorem auth_lookup {config : CircuitBreakerConfig} {a a' : Auth.AuthState} {o : AuthOp}
    {x : Auth.AuthChoice} {r : o.Ans} (h : Auth.handle config a o x = some (a', r))
    (hv : a'.cache.lookup layer key = some v) :
    a.cache.lookup layer key = some v ∨ (Op.auth o).store = some (layer, key, v) := by
  cases o with
  | cache o =>
    cases x with
    | cache x =>
      obtain ⟨⟨c, r'⟩, hc, heq⟩ := Option.map_eq_some_iff.mp h
      cases heq
      exact cache_lookup hc hv
    | _ => cases h
  | _ => cases x <;> cases h; exact Or.inl hv

theorem svc_lookup {config : Services.Config} {w w' : World ι} {i : ι} {o : SvcOp}
    {x : SvcChoice} {r : o.Ans} (h : Services.handle config w i o x = some (w', r))
    (hv : w'.cache.lookup layer key = some v) :
    w.cache.lookup layer key = some v ∨ (Op.svc o).store = some (layer, key, v) := by
  cases o with
  | db q =>
    obtain ⟨y, db', -, -, rfl⟩ := Services.handle_db h
    exact Or.inl hv
  | cache o =>
    obtain ⟨y, c, -, hc, rfl⟩ := Services.handle_cache h
    exact cache_lookup hc hv
  | flight o =>
    obtain ⟨y, f, -, -, rfl⟩ := Services.handle_flight h
    exact Or.inl hv
  | publish event item =>
    cases x with
    | published delivered =>
      cases h
      cases delivered <;> exact Or.inl hv
    | _ => cases h
  | _ => cases x <;> cases h; exact Or.inl hv

theorem board_lookup {L : Leaderboard.BoardLibs} {b b' : Leaderboard.Boards}
    {o : Leaderboard.BoardOp} {x : Leaderboard.BoardChoice} {r : o.Ans}
    (h : Leaderboard.handle L b o x = some (b', r)) (hv : b'.cache.lookup layer key = some v) :
    b.cache.lookup layer key = some v ∨ (Op.board o).store = some (layer, key, v) := by
  cases o with
  | cache o =>
    cases x with
    | cache x =>
      obtain ⟨⟨c, r'⟩, hc, heq⟩ := Option.map_eq_some_iff.mp h
      cases heq
      exact cache_lookup hc hv
    | _ => cases h
  | l1InvalidateFiltered =>
    cases x with
    | removed keys =>
      cases h
      left
      cases layer with
      | redis => exact hv
      | l1 =>
        have hv : (if Leaderboard.Filtered key ∧ key ∈ keys then none else b.cache.l1 key) =
          some v := hv
        split_ifs at hv
        exact hv
    | _ => cases h
  | _ => cases x <;> cases h <;> exact Or.inl hv

/-- The same of any operation. -/
theorem handle_lookup {S : Setup} {s s' : State ι} {i : ι} {o : Op} {x : Choice} {r : o.Ans}
    (h : handle S s i o x = some (s', r)) (hv : s'.world.cache.lookup layer key = some v) :
    s.world.cache.lookup layer key = some v ∨ o.store = some (layer, key, v) := by
  cases o with
  | auth o =>
    cases x with
    | auth x =>
      obtain ⟨⟨a, r'⟩, ha, heq⟩ := Option.map_eq_some_iff.mp h
      cases heq
      exact auth_lookup ha hv
    | _ => cases h
  | limit o =>
    cases x with
    | limit x =>
      obtain ⟨⟨l, r'⟩, -, heq⟩ := Option.map_eq_some_iff.mp h
      cases heq
      exact Or.inl hv
    | _ => cases h
  | svc o =>
    cases x with
    | svc x =>
      obtain ⟨⟨w, r'⟩, hw, heq⟩ := Option.map_eq_some_iff.mp h
      cases heq
      exact svc_lookup hw hv
    | _ => cases h
  | board o =>
    cases x with
    | board x =>
      obtain ⟨⟨b, r'⟩, hb, heq⟩ := Option.map_eq_some_iff.mp h
      cases heq
      exact board_lookup hb hv
    | _ => cases h

omit [DecidableEq ι] in
/-- What expires is not there any more, and nothing else appears. -/
theorem expire_lookup {s s' : State ι} {x : Choice} (h : expire s x = some s')
    (hv : s'.world.cache.lookup layer key = some v) : s.world.cache.lookup layer key = some v := by
  cases x with
  | svc x =>
    obtain ⟨w, hw, rfl⟩ := Option.map_eq_some_iff.mp h
    cases x with
    | evict layer' key' =>
      cases hw
      exact Cache.lookup_of_evict hv
    | _ => cases hw
  | limit x =>
    obtain ⟨l, -, rfl⟩ := Option.map_eq_some_iff.mp h
    exact hv
  | board x =>
    cases x with
    | expireRange window start stop =>
      cases h
      exact hv
    | _ => cases h
  | auth x => cases h

end Lookup

/-- Only the limiter's operations change the limiter. -/
theorem handle_limiter {S : Setup} {s s' : State ι} {i : ι} {o : Op} {x : Choice} {r : o.Ans}
    (h : handle S s i o x = some (s', r)) (ho : ∀ o', o ≠ .limit o') : s'.limiter = s.limiter := by
  cases o with
  | limit o => exact absurd rfl (ho o)
  | auth o =>
    cases x with
    | auth x =>
      obtain ⟨⟨a, r'⟩, -, heq⟩ := Option.map_eq_some_iff.mp h
      cases heq
      rfl
    | _ => cases h
  | svc o =>
    cases x with
    | svc x =>
      obtain ⟨⟨w, r'⟩, -, heq⟩ := Option.map_eq_some_iff.mp h
      cases heq
      rfl
    | _ => cases h
  | board o =>
    cases x with
    | board x =>
      obtain ⟨⟨b, r'⟩, -, heq⟩ := Option.map_eq_some_iff.mp h
      cases heq
      rfl
    | _ => cases h

end State

/-! ## Programs -/

/-- What a request runs. -/
abbrev ServerM (α : Type) := Prog Op Op.Ans α

def auth {α : Type} (p : Authn α) : ServerM α := p.lift .auth fun _ r => r

def limit {α : Type} (p : Prog RateLimit.Op RateLimit.Op.Ans α) : ServerM α :=
  p.lift .limit fun _ r => r

def svc {α : Type} (p : Svc α) : ServerM α := p.lift .svc fun _ r => r

def board {α : Type} (p : Leaderboard.BoardM α) : ServerM α := p.lift .board fun _ r => r

/-- `?`. -/
def attempt {ε α β : Type} (p : ServerM (Except ε α)) (f : α → ServerM (Except ε β)) :
    ServerM (Except ε β) := do
  match ← p with
  | .ok a => f a
  | .error e => return .error e

/-- What the service replies. -/
inductive Response where
  | reply (r : Reply)
  | board (r : TopLikedResponse)
  deriving DecidableEq, Repr

/-- A call of the service. -/
def serve (S : Setup) (call : ServiceCall) : ServerM (Except AppError Response) :=
  match call.program S.service S.codec S.boards with
  | .service p => do
    let result ← svc p
    return result.map .reply
  | .board p => do
    let result ← board p
    return result.map .board

/-- A handler: who is asking, if anyone is, what the extractors check, the limit, and the call the
    handler makes. -/
def handler {ε : Type} (S : Setup) (caller : ServerM (Except ε (Option AuthenticatedUser)))
    (extract : Except ε Unit) (within : Option AuthenticatedUser → ServerM (Except ε Unit))
    (call : Option AuthenticatedUser → Except ε ServiceCall) (ofError : AppError → ε) :
    ServerM (Except ε Response) :=
  attempt caller fun who =>
  attempt (.ret extract) fun _ =>
  attempt (within who) fun _ =>
  attempt (.ret (call who)) fun call => do
    let result ← serve S call
    return result.mapError ofError

/-! ## Who is asking -/

/-- The headers of a request that are read, and the address of the socket. -/
structure Envelope where
  authorization : Option RateLimit.HeaderValue
  client : RateLimit.Headers
  peer : Option String

/-- `parse_bearer_token` (auth.rs:22–32). -/
def parseBearerToken (header : String) : Except Auth.AuthFailure String :=
  match header.toList with
  | 'B' :: 'e' :: 'a' :: 'r' :: 'e' :: 'r' :: ' ' :: token =>
    if token = [] then .error .malformedToken else .ok (String.ofList token)
  | _ => .error .malformedToken

/-- The token in the header `authorization`, if there is one. -/
def Envelope.bearer (env : Envelope) : Except Auth.AuthFailure String :=
  match env.authorization.bind RateLimit.toStr with
  | some header => parseBearerToken header
  | none => .error .missingToken

/-- `authenticate_token` with the validator of the process. -/
def authenticateToken (S : Setup) (token : String) :
    ServerM (Except Auth.AuthFailure AuthenticatedUser) :=
  auth (Auth.authenticateToken S.users S.cacheTtlUserStatusSecs S.internalTransport token)

/-- The user of the token, with the failures of a transport. -/
def callerOf {ε : Type} (S : Setup) (failed : Auth.AuthFailure → ε) (env : Envelope) :
    ServerM (Except ε (Option AuthenticatedUser)) :=
  match env.bearer with
  | .error failure => return .error (failed failure)
  | .ok token => do
    let result ← authenticateToken S token
    return (result.mapError failed).map some

/-- `AuthUser::from_request_parts` (extractors/auth.rs:24–45). -/
def authUser (S : Setup) : Envelope → ServerM (Except Rejection (Option AuthenticatedUser)) :=
  callerOf S .unauthorized

/-- `auth_failure_to_status` (grpc/interceptors/auth.rs:45–57). -/
def authFailureToStatus : Auth.AuthFailure → Status
  | .missingToken => ⟨.unauthenticated, "Missing authorization metadata"⟩
  | .malformedToken => ⟨.unauthenticated, "Invalid authorization format"⟩
  | .invalidToken => ⟨.unauthenticated, "Invalid or expired token"⟩
  | .serviceUnavailable => ⟨.unavailable, "Authentication service unavailable"⟩

/-- `GrpcLikeService::authenticate` (likes_service.rs:46–57). -/
def authenticate (S : Setup) : Envelope → ServerM (Except Status (Option AuthenticatedUser)) :=
  callerOf S authFailureToStatus

/-- A public endpoint asks nobody. -/
def anyone {ε : Type} : ServerM (Except ε (Option AuthenticatedUser)) := return .ok none

/-! ## Rate limits -/

/-- The key and the quota of `check_user_write_limit` (rate_limit.rs:184–191). -/
def userWrite (S : Setup) (userId : Uuid) : RateLimit.Request :=
  ⟨"rl:user:write:" ++ toString (fnv1aHash userId.toString).toNat,
    ⟨S.rateLimitWritePerMinute, 60, RateLimit.sixty_pos, RateLimit.sixty_fits⟩⟩

/-- The key and the quota of `check_user_read_limit` (rate_limit.rs:208–215). -/
def userRead (S : Setup) (userId : Uuid) : RateLimit.Request :=
  ⟨"rl:user:read:" ++ toString (fnv1aHash userId.toString).toNat,
    ⟨S.rateLimitReadPerMinute, 60, RateLimit.sixty_pos, RateLimit.sixty_fits⟩⟩

/-- A user's limit in a handler (likes.rs:61–69): the 429 response, if it is reached. -/
def userLimit (quota : Uuid → RateLimit.Request) :
    Option AuthenticatedUser → ServerM (Except Rejection Unit)
  | none => return .ok ()
  | some user => do
    let result ← limit (RateLimit.checkRateLimitInner (quota user.userId))
    return withinLimit result.allowed

/-- `read_rate_limit` (rate_limit.rs:240–270), up to the handler. -/
def readRateLimit (S : Setup) (env : Envelope) (_ : Option AuthenticatedUser) :
    ServerM (Except Rejection Unit) := do
  match ← limit (RateLimit.readRateLimit S.rateLimitReadPerMinute env.client) with
  | .tooManyRequests _ => return .error .tooManyRequests
  | .next _ => return .ok ()

/-- `enforce_user_write_limit` and `enforce_user_read_limit` (rate_limit.rs:194–228). -/
def enforce (r : RateLimit.Request) : Prog RateLimit.Op RateLimit.Op.Ans (Except AppError Unit) := do
  let result ← RateLimit.checkRateLimitInner r
  if result.allowed then return .ok () else return .error (.rateLimited result.resetSecs)

/-- The status of a limit that is reached (likes_service.rs:66–74 and 85–93). -/
def limitStatus : AppError → Status
  | .rateLimited retryAfterSecs =>
    ⟨.resourceExhausted, "Rate limit exceeded. Retry after " ++ toString retryAfterSecs ++ "s"⟩
  | _ => ⟨.internal, "Rate limit check failed"⟩

/-- `GrpcLikeService::check_user_write_limit` and `check_user_read_limit`
    (likes_service.rs:60–94). -/
def checkUserLimit (quota : Uuid → RateLimit.Request) :
    Option AuthenticatedUser → ServerM (Except Status Unit)
  | none => return .ok ()
  | some user => do
    let result ← limit (enforce (quota user.userId))
    return result.mapError limitStatus

/-- `GrpcLikeService::check_public_read_limit` (likes_service.rs:97–107). -/
def checkPublicReadLimit (S : Setup) (env : Envelope) (_ : Option AuthenticatedUser) :
    ServerM (Except Status Unit) := do
  let result ← limit (RateLimit.checkPublicReadLimit S.rateLimitWritePerMinute
    S.rateLimitReadPerMinute env.client env.peer)
  return result.mapError fun message => ⟨.resourceExhausted, message⟩

/-! ## HTTP -/

/-- A request over HTTP, as axum hands it to a handler. -/
inductive HttpCall where
  | likeContent (body : BodyItem)
  | unlikeContent (contentType contentId : String)
  | getCount (contentType contentId : String)
  | getStatus (contentType contentId : String)
  | getUserLikes (params : PaginationParams)
  | batchCounts (body : List BodyItem)
  | batchStatuses (body : List BodyItem)
  | getLeaderboard (params : LeaderboardParams)
  deriving DecidableEq, Repr

/-- The call the handler makes for the caller. -/
def HttpCall.call (S : Setup) (k : HttpCall) (who : Option AuthenticatedUser) :
    Except Rejection ServiceCall :=
  let user : Except Auth.AuthFailure AuthenticatedUser :=
    match who with
    | some user => .ok user
    | none => .error .missingToken
  match k with
  | .likeContent body => Handlers.likeContent S.app user true body
  | .unlikeContent contentType contentId =>
    Handlers.unlikeContent S.app user true contentType contentId
  | .getCount contentType contentId => Handlers.getCount S.app true contentType contentId
  | .getStatus contentType contentId => Handlers.getStatus S.app user true contentType contentId
  | .getUserLikes params => Handlers.getUserLikes S.app user true params
  | .batchCounts body => Handlers.batchCounts S.app true body
  | .batchStatuses body => Handlers.batchStatuses S.app user true body
  | .getLeaderboard params => Handlers.getLeaderboard S.app true params

/-- The answer over HTTP. -/
abbrev HttpResult := Except Rejection Response

section Http

variable (S : Setup) (env : Envelope)

/-- `like_content` (likes.rs:55–80). -/
def likeContent (body : BodyItem) : ServerM HttpResult :=
  handler S (authUser S env) ((readItem S.app.libs body).map fun _ => ()) (userLimit (userWrite S))
    (HttpCall.call S (.likeContent body)) .app

/-- `unlike_content` (likes.rs:99–121). -/
def unlikeContent (contentType contentId : String) : ServerM HttpResult :=
  handler S (authUser S env) ((S.app.contentPath contentType contentId).map fun _ => ())
    (userLimit (userWrite S)) (HttpCall.call S (.unlikeContent contentType contentId)) .app

/-- `get_count` (likes.rs:137–146), behind `read_rate_limit`. -/
def getCount (contentType contentId : String) : ServerM HttpResult :=
  handler S anyone (.ok ()) (readRateLimit S env)
    (HttpCall.call S (.getCount contentType contentId)) .app

/-- `get_status` (likes.rs:164–186). -/
def getStatus (contentType contentId : String) : ServerM HttpResult :=
  handler S (authUser S env) ((S.app.contentPath contentType contentId).map fun _ => ())
    (userLimit (userRead S)) (HttpCall.call S (.getStatus contentType contentId)) .app

/-- `get_user_likes` (likes.rs:205–239). -/
def getUserLikes (params : PaginationParams) : ServerM HttpResult :=
  handler S (authUser S env) (.ok ()) (userLimit (userRead S))
    (HttpCall.call S (.getUserLikes params)) .app

/-- `batch_counts` (likes.rs:252–260), behind `read_rate_limit`. -/
def batchCounts (body : List BodyItem) : ServerM HttpResult :=
  handler S anyone (.ok ()) (readRateLimit S env) (HttpCall.call S (.batchCounts body)) .app

/-- `batch_statuses` (likes.rs:275–300). -/
def batchStatuses (body : List BodyItem) : ServerM HttpResult :=
  handler S (authUser S env) ((body.mapM (readItem S.app.libs)).map fun _ => ())
    (userLimit (userRead S)) (HttpCall.call S (.batchStatuses body)) .app

/-- `get_leaderboard` (likes.rs:327–345), behind `read_rate_limit`. -/
def getLeaderboard (params : LeaderboardParams) : ServerM HttpResult :=
  handler S anyone (.ok ()) (readRateLimit S env) (HttpCall.call S (.getLeaderboard params)) .app

/-- axum has a route for the request and its method. -/
def HttpCall.routed : HttpCall → Bool
  | .unlikeContent contentType contentId =>
    deleteRouted contentType contentId && (S.app.libs.pathParams contentType contentId).isSome
  | .getCount contentType contentId => (S.app.libs.pathParams contentType contentId).isSome
  | .getStatus contentType contentId => (S.app.libs.pathParams contentType contentId).isSome
  | _ => true

/-- A request over HTTP. -/
def http (k : HttpCall) : ServerM HttpResult :=
  if k.routed S then
    match k with
    | .likeContent body => likeContent S env body
    | .unlikeContent contentType contentId => unlikeContent S env contentType contentId
    | .getCount contentType contentId => getCount S env contentType contentId
    | .getStatus contentType contentId => getStatus S env contentType contentId
    | .getUserLikes params => getUserLikes S env params
    | .batchCounts body => batchCounts S env body
    | .batchStatuses body => batchStatuses S env body
    | .getLeaderboard params => getLeaderboard S env params
  else return .error .noRoute

end Http

/-! ## gRPC -/

/-- A request over gRPC. -/
inductive GrpcCall where
  | like (inner : Grpc.ContentRef)
  | unlike (inner : Grpc.ContentRef)
  | getCount (inner : Grpc.ContentRef)
  | getStatus (inner : Grpc.ContentRef)
  | batchCounts (items : List Grpc.ContentRef)
  | batchStatuses (items : List Grpc.ContentRef)
  | getUserLikes (inner : Grpc.GetUserLikesRequest)
  | getLeaderboard (inner : Grpc.LeaderboardRequest)
  deriving DecidableEq, Repr

/-- The call the method makes for the caller. -/
def GrpcCall.call (S : Setup) (k : GrpcCall) (who : Option AuthenticatedUser) :
    Except Status ServiceCall :=
  let user : Except Status AuthenticatedUser :=
    match who with
    | some user => .ok user
    | none => .error (authFailureToStatus .missingToken)
  match k with
  | .like inner => Grpc.like S.app user (.ok ()) inner
  | .unlike inner => Grpc.unlike S.app user (.ok ()) inner
  | .getCount inner => Grpc.getCount S.app (.ok ()) inner
  | .getStatus inner => Grpc.getStatus S.app user (.ok ()) inner
  | .batchCounts items => Grpc.batchCounts S.app (.ok ()) items
  | .batchStatuses items => Grpc.batchStatuses S.app user (.ok ()) items
  | .getUserLikes inner => Grpc.getUserLikes S.app user (.ok ()) inner
  | .getLeaderboard inner => Grpc.getLeaderboard S.app (.ok ()) inner

/-- The answer over gRPC. -/
abbrev GrpcResult := Except Status Response

section Grpc

variable (S : Setup) (env : Envelope)

/-- A method that changes something for its caller: `like` (likes_service.rs:162–190) and `unlike`
    (194–222). -/
def grpcWrite (k : GrpcCall) : ServerM GrpcResult :=
  handler S (authenticate S env) (.ok ()) (checkUserLimit (userWrite S)) (k.call S) appErrorToStatus

/-- A method that reads for its caller: `get_status` (likes_service.rs:256–285), `batch_statuses`
    (329–366) and `get_user_likes` (370–418). -/
def grpcRead (k : GrpcCall) : ServerM GrpcResult :=
  handler S (authenticate S env) (.ok ()) (checkUserLimit (userRead S)) (k.call S) appErrorToStatus

/-- A method for everyone: `get_count` (likes_service.rs:226–252), `batch_counts` (289–325) and
    `get_leaderboard` (422–460). -/
def grpcPublic (k : GrpcCall) : ServerM GrpcResult :=
  handler S anyone (.ok ()) (checkPublicReadLimit S env) (k.call S) appErrorToStatus

/-- A request over gRPC. -/
def grpc (k : GrpcCall) : ServerM GrpcResult :=
  match k with
  | .like _ => grpcWrite S env k
  | .unlike _ => grpcWrite S env k
  | .getCount _ => grpcPublic S env k
  | .getStatus _ => grpcRead S env k
  | .batchCounts _ => grpcPublic S env k
  | .batchStatuses _ => grpcRead S env k
  | .getUserLikes _ => grpcRead S env k
  | .getLeaderboard _ => grpcPublic S env k

end Grpc

/-! ## Requests -/

/-- A request, or a round of the task that refreshes the leaderboards
    (leaderboard_refresh.rs:75–90). -/
inductive Request where
  | http (env : Envelope) (k : HttpCall)
  | grpc (env : Envelope) (k : GrpcCall)
  | refresh (ttl : ℕ) (contentTypes : List String)

namespace Request

/-- The token that comes with a request. -/
def bearer : Request → Option String
  | http env _ => env.bearer.toOption
  | grpc env _ => env.bearer.toOption
  | refresh _ _ => none

/-- The call of the service that is made for the caller, if one is made. -/
def call (S : Setup) (who : Option AuthenticatedUser) : Request → Option ServiceCall
  | http _ k => (k.call S who).toOption
  | grpc _ k => (k.call S who).toOption
  | refresh _ _ => none

end Request

/-- How a request is answered. -/
inductive Answer where
  | http (result : HttpResult)
  | grpc (result : GrpcResult)
  | refreshed

/-- The program of a request. -/
def Request.prog (S : Setup) : Request → ServerM Answer
  | .http env k => do
    let result ← Server.http S env k
    return .http result
  | .grpc env k => do
    let result ← Server.grpc S env k
    return .grpc result
  | .refresh ttl contentTypes => do
    let _ ← board (Leaderboard.refreshAllWindows S.boards ttl contentTypes)
    return .refreshed

variable {ι : Type} [DecidableEq ι]

/-- Any number of requests to one process that starts with empty caches and an empty limiter. A
    request may be dropped at any time: its transaction is rolled back. -/
def server (S : Setup) : Pool ι (State ι) Request Op Op.Ans Answer Choice where
  init s := (service S.service S.codec).init s.world ∧ s.profileBreaker = CircuitBreaker.new ∧
    s.limiter = .new
  prog := Request.prog S
  start s _ _ := some s
  handle := handle S
  drop s i := some { s with world := dropCall s.world i }
  env := expire

end SocialApi.Server
