import SocialApi.Auth
import SocialApi.Leaderboard
import SocialApi.Services.Requests

/-!
# The HTTP handlers of the likes

`handlers/likes.rs`, with the extractors it uses, up to the call of `LikeService`: a handler
gives the call it makes (`ServiceCall`) or the reason why it makes none.

A request is taken as axum hands it over: the strings of the JSON body, the two segments of
the path, the parameters of the query. What axum's router makes of the segments and what
`Uuid::parse_str` reads (serde reads the `Uuid`s of a body with it too) are parameters
(`Libs`). Whether the caller is authenticated and within the rate limit is given.

* `ServiceCall.program_effective`: a call does what it does with its limit clamped.
-/

namespace SocialApi.Handlers

open SocialApi.Concurrent SocialApi.Services SocialApi.Leaderboard

/-! ## Calls of the service -/

/-- A method of `LikeService` with its arguments (like_service.rs:77–166). -/
inductive ServiceCall where
  | like (userId : Uuid) (item : Item)
  | unlike (userId : Uuid) (item : Item)
  | getCount (item : Item)
  | getStatus (userId : Uuid) (item : Item)
  | getUserLikes (userId : Uuid) (contentTypeFilter cursor : Option String) (limit : I64)
  | batchCounts (items : List Item)
  | batchStatuses (userId : Uuid) (items : List Item)
  | getLeaderboard (contentType : Option String) (window : TimeWindow) (limit : I64)
  deriving DecidableEq, Repr

/-- `i64::clamp`. -/
def clamp (lo hi limit : I64) : I64 :=
  if limit.val < lo.val then lo else if hi.val < limit.val then hi else limit

/-- A small `i64`. -/
def i64 (n : ℕ) (h : n < 2 ^ 63 := by norm_num) : I64 :=
  ⟨n, by omega, by exact_mod_cast h⟩

/-- The call with the arguments the service goes on with: it clamps a limit itself
    (like_queries.rs:110 and 313). -/
def ServiceCall.effective : ServiceCall → ServiceCall
  | getUserLikes userId contentTypeFilter cursor limit =>
    getUserLikes userId contentTypeFilter cursor (clamp (i64 1) (i64 100) limit)
  | getLeaderboard contentType window limit =>
    getLeaderboard contentType window (clamp (i64 1) (i64 50) limit)
  | call => call

/-- What a call runs: a program over the tables and caches, or over the leaderboards. -/
inductive Program where
  | service (p : Svc (Except AppError Reply))
  | board (p : BoardM (Except AppError TopLikedResponse))

/-- The program of a call. -/
def ServiceCall.program (cfg : Config) (C : Codec) (B : BoardLibs) : ServiceCall → Program
  | like userId item => .service (Request.prog cfg C (.mutation (.like userId item)))
  | unlike userId item => .service (Request.prog cfg C (.mutation (.unlike userId item)))
  | getCount item => .service (Request.prog cfg C (.getCount item))
  | getStatus userId item => .service (Request.prog cfg C (.getStatus userId item))
  | getUserLikes userId contentTypeFilter cursor limit =>
    .service (Request.prog cfg C (.getUserLikes userId contentTypeFilter cursor limit))
  | batchCounts items => .service (Request.prog cfg C (.batchCounts items))
  | batchStatuses userId items => .service (Request.prog cfg C (.batchStatuses userId items))
  | getLeaderboard contentType window limit =>
    .board (Leaderboard.getLeaderboard B contentType window limit.val)

theorem clampLimit_clamp (limit : I64) :
    clampLimit (clamp (i64 1) (i64 100) limit) = clampLimit limit := by
  unfold clampLimit clamp i64
  split_ifs with h₁ h₂
  · have h₁ : limit.val < 1 := h₁
    show (max 1 (min (1 : ℤ) 100)).toNat = _
    omega
  · have h₂ : 100 < limit.val := h₂
    show (max 1 (min (100 : ℤ) 100)).toNat = _
    omega
  · rfl

theorem clamp_leaderboard (limit : I64) :
    max 1 (min (clamp (i64 1) (i64 50) limit).val 50) = max 1 (min limit.val 50) := by
  unfold clamp i64
  split_ifs with h₁ h₂
  · have h₁ : limit.val < 1 := h₁
    show max 1 (min (1 : ℤ) 50) = _
    omega
  · have h₂ : 50 < limit.val := h₂
    show max 1 (min (50 : ℤ) 50) = _
    omega
  · rfl

/-- A call does what it does with its effective arguments. -/
theorem ServiceCall.program_effective (cfg : Config) (C : Codec) (B : BoardLibs)
    (call : ServiceCall) : call.effective.program cfg C B = call.program cfg C B := by
  cases call with
  | getUserLikes userId contentTypeFilter cursor limit =>
    show Program.service ((Services.getUserLikes cfg C userId contentTypeFilter cursor _).bind _) =
      Program.service ((Services.getUserLikes cfg C userId contentTypeFilter cursor limit).bind _)
    unfold Services.getUserLikes
    rw [clampLimit_clamp]
  | getLeaderboard contentType window limit =>
    show Program.board (Leaderboard.getLeaderboard B contentType window _) =
      Program.board (Leaderboard.getLeaderboard B contentType window limit.val)
    unfold Leaderboard.getLeaderboard
    rw [clamp_leaderboard]
  | _ => rfl

/-! ## What comes from elsewhere -/

/-- `Uuid::parse_str`, and what axum makes of a path. -/
structure Libs where
  parseStr : String → Option Uuid
  /-- What `Path<(String, String)>` extracts if a client puts a content type and an id into
      the two segments of a path; `none` if the router does not take the path. -/
  pathParams : String → String → Option (String × String)

/-- What is documented of them: a UUID is written in 32, 36, 38 or 45 characters; a segment that
    is not empty is a parameter, and is decoded to what was written. -/
structure Libs.Documented (L : Libs) : Prop where
  parse_length : ∀ s u, L.parseStr s = some u →
    s.length = 32 ∨ s.length = 36 ∨ s.length = 38 ∨ s.length = 45
  params : ∀ contentType contentId, contentType ≠ "" → contentId ≠ "" →
    (L.pathParams contentType contentId).isSome
  params_eq : ∀ contentType contentId params, L.pathParams contentType contentId = some params →
    params = (contentType, contentId)

/-- The uuid crate's spellings, and a router that takes no empty segment. -/
def plainLibs : Libs where
  parseStr := Uuid.parseStr
  pathParams contentType contentId :=
    if contentType = "" ∨ contentId = "" then none else some (contentType, contentId)

theorem plainLibs_documented : plainLibs.Documented where
  parse_length s u h := by
    have h : Uuid.parseStr s = some u := h
    unfold Uuid.parseStr at h
    rw [← String.length_toList]
    simp only at h
    split_ifs at h with h₁ h₂ h₃ h₄
    · exact Or.inl h₁
    · exact Or.inr (Or.inl h₂)
    · exact Or.inr (Or.inr (Or.inl h₃.1))
    · exact Or.inr (Or.inr (Or.inr h₄.1))
  params contentType contentId hne hne' := by
    show (if contentType = "" ∨ contentId = "" then none else some _).isSome
    rw [if_neg (not_or.mpr ⟨hne, hne'⟩)]
    rfl
  params_eq contentType contentId params h := by
    have h : (if contentType = "" ∨ contentId = "" then none else some (contentType, contentId)) =
      some params := h
    split_ifs at h
    exact (Option.some.inj h).symm

/-! ## Checks -/

/-- Why a handler calls nothing. -/
inductive Rejection where
  | unauthorized (failure : Auth.AuthFailure)
  /-- The router has no such route, or not for the method. -/
  | noRoute
  /-- `Json` cannot read the body. -/
  | body
  | tooManyRequests
  | app (error : AppError)

/-- `ensure_registered_content_types` (content.rs:17–26). -/
def ensureRegisteredContentTypes (contentApiUrls : String → Option String) :
    List String → Except AppError Unit
  | [] => .ok ()
  | contentType :: rest => do
    Streams.ensureRegisteredContentType contentApiUrls contentType
    ensureRegisteredContentTypes contentApiUrls rest

/-- `TimeWindow::from_str_value` (types.rs:42–50). -/
def fromStrValue (s : String) : Option TimeWindow :=
  if s = "24h" then some .day
  else if s = "7d" then some .week
  else if s = "30d" then some .month
  else if s = "all" then some .all
  else none

/-! ## Extractors -/

/-- The two members of a `LikeRequest` or a `BatchItem` as they stand in a body. -/
structure BodyItem where
  contentType : String
  contentId : String
  deriving DecidableEq, Repr

/-- How `Json` reads a `LikeRequest` or a `BatchItem` (types.rs:194–199 and 246–251). -/
def readItem (L : Libs) (body : BodyItem) : Except Rejection Item :=
  match L.parseStr body.contentId with
  | some contentId => .ok (body.contentType, contentId)
  | none => .error .body

/-- `PaginationParams` (types.rs:113–117). -/
structure PaginationParams where
  cursor : Option String
  limit : Option I64
  contentType : Option String
  deriving DecidableEq, Repr

/-- `LeaderboardParams` (likes.rs:304–314). -/
structure LeaderboardParams where
  contentType : Option String
  window : Option String
  limit : Option I64
  deriving DecidableEq, Repr

/-- What the handlers read of the application: the registered content types. -/
structure AppState where
  libs : Libs
  contentApiUrls : String → Option String

namespace AppState

variable (S : AppState)

/-- `validate_content_type` (likes.rs:21–23). -/
def validateContentType (contentType : String) : Except Rejection Unit :=
  (Streams.ensureRegisteredContentType S.contentApiUrls contentType).mapError .app

/-- `validate_batch_content_types` (likes.rs:26–28). -/
def validateBatchContentTypes (items : List Item) : Except Rejection Unit :=
  (ensureRegisteredContentTypes S.contentApiUrls (items.map Prod.fst)).mapError .app

/-- `ContentPath::from_request_parts` (content_path.rs:26–43). -/
def contentPath (contentType contentId : String) : Except Rejection Item := do
  match S.libs.pathParams contentType contentId with
  | none => throw .noRoute
  | some (contentType, contentIdStr) =>
    S.validateContentType contentType
    match S.libs.parseStr contentIdStr with
    | some contentId => return (contentType, contentId)
    | none => throw (.app (.invalidContentId contentIdStr))

/-- The optional filter of a query (likes.rs:220–223 and 331–334). -/
def validateFilter : Option String → Except Rejection Unit
  | some contentType => S.validateContentType contentType
  | none => .ok ()

end AppState

/-- The 429 response, if the limit is reached. -/
def withinLimit (allowed : Bool) : Except Rejection Unit :=
  if allowed then .ok () else .error .tooManyRequests

/-- The extractor `AuthUser`. -/
def authUser (auth : Except Auth.AuthFailure AuthenticatedUser) :
    Except Rejection AuthenticatedUser :=
  auth.mapError .unauthorized

/-! ## Handlers -/

section Handlers

variable (S : AppState) (auth : Except Auth.AuthFailure AuthenticatedUser) (allowed : Bool)

/-- `like_content` (likes.rs:55–80). -/
def likeContent (body : BodyItem) : Except Rejection ServiceCall := do
  let user ← authUser auth
  let item ← readItem S.libs body
  withinLimit allowed
  S.validateContentType item.1
  return .like user.userId item

/-- The router's `DELETE /v1/likes/{content_type}/{content_id}` (server.rs:131–136): the paths of
    the two batch endpoints have routes of their own, which take no `DELETE`. -/
def deleteRouted (contentType contentId : String) : Bool :=
  ¬ (contentType = "batch" ∧ (contentId = "counts" ∨ contentId = "statuses"))

/-- `unlike_content` (likes.rs:99–121). -/
def unlikeContent (contentType contentId : String) : Except Rejection ServiceCall := do
  unless deleteRouted contentType contentId do throw .noRoute
  let user ← authUser auth
  let item ← S.contentPath contentType contentId
  withinLimit allowed
  return .unlike user.userId item

/-- `get_count` (likes.rs:137–146), behind the middleware `read_rate_limit`. -/
def getCount (contentType contentId : String) : Except Rejection ServiceCall := do
  withinLimit allowed
  let item ← S.contentPath contentType contentId
  return .getCount item

/-- `get_status` (likes.rs:164–186). -/
def getStatus (contentType contentId : String) : Except Rejection ServiceCall := do
  let user ← authUser auth
  let item ← S.contentPath contentType contentId
  withinLimit allowed
  return .getStatus user.userId item

/-- `get_user_likes` (likes.rs:205–239). -/
def getUserLikes (params : PaginationParams) : Except Rejection ServiceCall := do
  let user ← authUser auth
  withinLimit allowed
  S.validateFilter params.contentType
  let limit := clamp (i64 1) (i64 100) (params.limit.getD (i64 20))
  return .getUserLikes user.userId params.contentType params.cursor limit

/-- `batch_counts` (likes.rs:252–260), behind the middleware `read_rate_limit`. -/
def batchCounts (body : List BodyItem) : Except Rejection ServiceCall := do
  withinLimit allowed
  let items ← body.mapM (readItem S.libs)
  S.validateBatchContentTypes items
  return .batchCounts items

/-- `batch_statuses` (likes.rs:275–300). -/
def batchStatuses (body : List BodyItem) : Except Rejection ServiceCall := do
  let user ← authUser auth
  let items ← body.mapM (readItem S.libs)
  withinLimit allowed
  S.validateBatchContentTypes items
  return .batchStatuses user.userId items

/-- `get_leaderboard` (likes.rs:327–345), behind the middleware `read_rate_limit`. -/
def getLeaderboard (params : LeaderboardParams) : Except Rejection ServiceCall := do
  withinLimit allowed
  S.validateFilter params.contentType
  let windowStr := params.window.getD "all"
  match fromStrValue windowStr with
  | none => throw (.app (.invalidWindow windowStr))
  | some window =>
    let limit := clamp (i64 1) (i64 50) (params.limit.getD (i64 10))
    return .getLeaderboard params.contentType window limit

end Handlers

end SocialApi.Handlers
