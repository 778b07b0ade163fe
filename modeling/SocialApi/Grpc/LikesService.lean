import SocialApi.Handlers.Likes

/-!
# The gRPC service of the likes, against the HTTP handlers

`grpc/likes_service.rs` and `grpc/convert.rs` up to the call of `LikeService`, over the
messages of `likes.proto`; in proto3 a number that is not set is read as zero.

A client means one thing (`LogicalRequest`) and can send it over HTTP or over gRPC.

* `sameCall_iff`: both transports reject it or make the same call exactly when a limit that
  counts is given, and no accepted content type is empty where HTTP has it in the path.
* `noLimit_differs`: without a limit HTTP asks for ten items and gRPC for one.
-/

namespace SocialApi.Grpc

open SocialApi.Handlers SocialApi.Streams

/-! ## Messages -/

/-- `LikeRequest`, `UnlikeRequest`, `GetCountRequest`, `GetStatusRequest` and `ContentRef`. -/
structure ContentRef where
  contentType : String
  contentId : String
  deriving DecidableEq, Repr

/-- `PaginationRequest`. -/
structure PaginationRequest where
  cursor : Option String
  limit : Int32
  deriving DecidableEq, Repr

/-- `GetUserLikesRequest`. -/
structure GetUserLikesRequest where
  pagination : Option PaginationRequest
  contentType : Option String
  deriving DecidableEq, Repr

/-- `LeaderboardRequest`. -/
structure LeaderboardRequest where
  window : Int32
  contentType : Option String
  limit : Int32
  deriving DecidableEq, Repr

/-! ## Conversions -/

/-- `n as i64`. -/
def toI64 (n : Int32) : I64 :=
  ⟨n.toInt, by have := n.le_toInt; omega, by have := n.toInt_lt; omega⟩

/-- `from_proto_window` (convert.rs:57–65). -/
def fromProtoWindow (v : Int32) : Except String TimeWindow :=
  if v = 1 then .ok .day
  else if v = 2 then .ok .week
  else if v = 3 then .ok .month
  else if v = 4 then .ok .all
  else .error "invalid or unspecified time window"

/-- `Status::invalid_argument`. -/
def invalidArgument (message : String) : Status := ⟨.invalidArgument, message⟩

section Methods

variable (S : AppState) (auth : Except Status AuthenticatedUser) (limit : Except Status Unit)

/-- One element of `extract_content_refs`. -/
def readRef (r : ContentRef) : Except Status Item := do
  let id ← parseUuid S.libs.parseStr r.contentId
  return (r.contentType, id)

/-- `extract_content_refs` (convert.rs:81–90). -/
def extractContentRefs (refs : List ContentRef) : Except Status (List Item) :=
  refs.mapM (readRef S)

/-- `validate_content_type` (likes_service.rs:135–137). -/
def validateContentType (contentType : String) : Except Status Unit :=
  (ensureRegisteredContentType S.contentApiUrls contentType).mapError appErrorToStatus

/-- The check of a batch (likes_service.rs:302–306 and 343–347). -/
def validateRefs (refs : List Item) : Except Status Unit :=
  (ensureRegisteredContentTypes S.contentApiUrls (refs.map Prod.fst)).mapError appErrorToStatus

/-- The optional filter (likes_service.rs:383–387 and 436–439). -/
def validateFilter : Option String → Except Status Unit
  | some contentType => validateContentType S contentType
  | none => .ok ()

/-! ## Methods -/

/-- `like` (likes_service.rs:162–190). -/
def like (inner : ContentRef) : Except Status ServiceCall := do
  let user ← auth
  limit
  validateContentType S inner.contentType
  let contentId ← parseUuid S.libs.parseStr inner.contentId
  return .like user.userId (inner.contentType, contentId)

/-- `unlike` (likes_service.rs:194–222). -/
def unlike (inner : ContentRef) : Except Status ServiceCall := do
  let user ← auth
  limit
  validateContentType S inner.contentType
  let contentId ← parseUuid S.libs.parseStr inner.contentId
  return .unlike user.userId (inner.contentType, contentId)

/-- `get_count` (likes_service.rs:226–252). -/
def getCount (inner : ContentRef) : Except Status ServiceCall := do
  limit
  validateContentType S inner.contentType
  let contentId ← parseUuid S.libs.parseStr inner.contentId
  return .getCount (inner.contentType, contentId)

/-- `get_status` (likes_service.rs:256–285). -/
def getStatus (inner : ContentRef) : Except Status ServiceCall := do
  let user ← auth
  limit
  validateContentType S inner.contentType
  let contentId ← parseUuid S.libs.parseStr inner.contentId
  return .getStatus user.userId (inner.contentType, contentId)

/-- `batch_counts` (likes_service.rs:289–325). -/
def batchCounts (items : List ContentRef) : Except Status ServiceCall := do
  limit
  let refs ← extractContentRefs S items
  validateRefs S refs
  return .batchCounts refs

/-- `batch_statuses` (likes_service.rs:329–366). -/
def batchStatuses (items : List ContentRef) : Except Status ServiceCall := do
  let user ← auth
  limit
  let refs ← extractContentRefs S items
  validateRefs S refs
  return .batchStatuses user.userId refs

/-- `get_user_likes` (likes_service.rs:370–418). -/
def getUserLikes (inner : GetUserLikesRequest) : Except Status ServiceCall := do
  let user ← auth
  limit
  validateFilter S inner.contentType
  let (cursor, limit) :=
    match inner.pagination with
    | some p => (p.cursor, toI64 p.limit)
    | none => (none, toI64 20)
  return .getUserLikes user.userId inner.contentType cursor limit

/-- `get_leaderboard` (likes_service.rs:422–460). -/
def getLeaderboard (inner : LeaderboardRequest) : Except Status ServiceCall := do
  limit
  let window ← (fromProtoWindow inner.window).mapError invalidArgument
  validateFilter S inner.contentType
  return .getLeaderboard inner.contentType window (toI64 inner.limit)

end Methods

/-! ## What a client means -/

/-- A window as it is written in a query and in a message: the same one, or none in both. -/
structure Window where
  text : String
  code : Int32
  same : fromStrValue text = (fromProtoWindow code).toOption

/-- The windows as they are documented, in a query and as `TimeWindow` of common.proto. -/
def Window.of : TimeWindow → Window
  | .day => ⟨"24h", 1, by decide⟩
  | .week => ⟨"7d", 2, by decide⟩
  | .month => ⟨"30d", 3, by decide⟩
  | .all => ⟨"all", 4, by decide⟩

theorem Window.of_read (w : TimeWindow) :
    fromStrValue (of w).text = some w ∧ fromProtoWindow (of w).code = .ok w := by
  cases w <;> decide

/-- The part of a list a client asks for. -/
structure Page where
  cursor : Option String
  limit : Option Int32
  deriving DecidableEq, Repr

/-- A request. A page may be left out as a whole. -/
inductive LogicalRequest where
  | like (contentType contentId : String)
  | unlike (contentType contentId : String)
  | getCount (contentType contentId : String)
  | getStatus (contentType contentId : String)
  | batchCounts (items : List (String × String))
  | batchStatuses (items : List (String × String))
  | getUserLikes (contentType : Option String) (page : Option Page)
  | getLeaderboard (contentType : Option String) (window : Window) (limit : Option Int32)

/-- The request over HTTP, from an authenticated user within the rate limits. -/
def viaHttp (S : AppState) (user : AuthenticatedUser) : LogicalRequest → Except Rejection ServiceCall
  | .like contentType contentId => likeContent S (.ok user) true ⟨contentType, contentId⟩
  | .unlike contentType contentId => unlikeContent S (.ok user) true contentType contentId
  | .getCount contentType contentId => Handlers.getCount S true contentType contentId
  | .getStatus contentType contentId => Handlers.getStatus S (.ok user) true contentType contentId
  | .batchCounts items => Handlers.batchCounts S true (items.map fun i => ⟨i.1, i.2⟩)
  | .batchStatuses items =>
    Handlers.batchStatuses S (.ok user) true (items.map fun i => ⟨i.1, i.2⟩)
  | .getUserLikes contentType page =>
    Handlers.getUserLikes S (.ok user) true
      ⟨page.bind Page.cursor, (page.bind Page.limit).map toI64, contentType⟩
  | .getLeaderboard contentType window limit =>
    Handlers.getLeaderboard S true ⟨contentType, some window.text, limit.map toI64⟩

/-- The request over gRPC, from an authenticated user within the rate limits. -/
def viaGrpc (S : AppState) (user : AuthenticatedUser) : LogicalRequest → Except Status ServiceCall
  | .like contentType contentId => like S (.ok user) (.ok ()) ⟨contentType, contentId⟩
  | .unlike contentType contentId => unlike S (.ok user) (.ok ()) ⟨contentType, contentId⟩
  | .getCount contentType contentId => getCount S (.ok ()) ⟨contentType, contentId⟩
  | .getStatus contentType contentId => getStatus S (.ok user) (.ok ()) ⟨contentType, contentId⟩
  | .batchCounts items => batchCounts S (.ok ()) (items.map fun i => ⟨i.1, i.2⟩)
  | .batchStatuses items => batchStatuses S (.ok user) (.ok ()) (items.map fun i => ⟨i.1, i.2⟩)
  | .getUserLikes contentType page =>
    getUserLikes S (.ok user) (.ok ())
      ⟨page.map fun p => ⟨p.cursor, p.limit.getD 0⟩, contentType⟩
  | .getLeaderboard contentType window limit =>
    getLeaderboard S (.ok ()) ⟨window.code, contentType, limit.getD 0⟩

/-- Both transports reject, or both make the same call and so run the same program. -/
def SameCall : Except Rejection ServiceCall → Except Status ServiceCall → Prop
  | .error _, .error _ => True
  | .ok call, .ok call' => call.effective = call'.effective ∧
      ∀ cfg C B, call.program cfg C B = call'.program cfg C B
  | _, _ => False

/-! ## When they agree -/

/-- The content type is registered. -/
def Known (S : AppState) (contentType : String) : Prop := (S.contentApiUrls contentType).isSome

/-- A filter that is accepted. -/
def KnownFilter (S : AppState) (contentType : Option String) : Prop :=
  ∀ ct, contentType = some ct → Known S ct

/-- A path that the router takes, or a request that is rejected anyway. -/
def PathTaken (S : AppState) (contentType contentId : String) : Prop :=
  Known S contentType → (S.libs.parseStr contentId).isSome →
    (S.libs.pathParams contentType contentId).isSome

/-- The condition on a request: a limit that counts is given, unless the request is rejected
    anyway, and HTTP's router takes its path. -/
def Expressible (S : AppState) : LogicalRequest → Prop
  | .like _ _ => True
  | .unlike contentType contentId => PathTaken S contentType contentId
  | .getCount contentType contentId => PathTaken S contentType contentId
  | .getStatus contentType contentId => PathTaken S contentType contentId
  | .batchCounts _ => True
  | .batchStatuses _ => True
  | .getUserLikes contentType page =>
    KnownFilter S contentType → ∀ p, page = some p → p.limit.isSome
  | .getLeaderboard contentType window limit =>
    KnownFilter S contentType → (fromStrValue window.text).isSome → limit.isSome

section Outcomes

variable {ε ε' α β : Type}

theorem bind_eq_ok {x : Except ε α} {f : α → Except ε β} {b : β} :
    (x >>= f) = .ok b ↔ ∃ a, x = .ok a ∧ f a = .ok b := by
  cases x with
  | error e => exact ⟨fun h => (by cases h), fun ⟨_, h, _⟩ => (by cases h)⟩
  | ok a =>
    constructor
    · intro h
      exact ⟨a, rfl, h⟩
    · rintro ⟨a', ha, hb⟩
      cases ha
      exact hb

/-- A check before the rest. -/
theorem check_eq_ok {x : Except ε Unit} {y : Except ε β} {b : β} :
    (x >>= fun _ => y) = .ok b ↔ x = .ok () ∧ y = .ok b :=
  bind_eq_ok.trans ⟨fun ⟨_, hx, hy⟩ => ⟨hx, hy⟩, fun ⟨hx, hy⟩ => ⟨(), hx, hy⟩⟩

theorem mapError_eq_ok {x : Except ε α} {f : ε → ε'} {a : α} :
    x.mapError f = .ok a ↔ x = .ok a := by
  cases x with
  | error e => exact ⟨fun h => (by cases h), fun h => (by cases h)⟩
  | ok a' => exact ⟨fun h => congrArg _ (Except.ok.inj h), fun h => congrArg _ (Except.ok.inj h)⟩

/-- Readers that read the same read the same lists. -/
theorem mapM_eq_ok {f : α → Except ε β} {α' : Type} {g : α' → Except ε' β} {l : List α}
    {t : α → α'} (h : ∀ a b, f a = .ok b ↔ g (t a) = .ok b) (bs : List β) :
    l.mapM f = .ok bs ↔ (l.map t).mapM g = .ok bs := by
  induction l generalizing bs with
  | nil =>
    show (Except.ok [] : Except ε (List β)) = .ok bs ↔ (Except.ok [] : Except ε' (List β)) = .ok bs
    rw [Except.ok.injEq, Except.ok.injEq]
  | cons a l ih =>
    rw [List.mapM_cons, List.map_cons, List.mapM_cons]
    simp only [bind_eq_ok, h, ih]
    exact ⟨fun ⟨b, hb, rest, hrest, he⟩ => ⟨b, hb, rest, hrest, congrArg _ (Except.ok.inj he)⟩,
      fun ⟨b, hb, rest, hrest, he⟩ => ⟨b, hb, rest, hrest, congrArg _ (Except.ok.inj he)⟩⟩

theorem sameCall_ok {call call' : ServiceCall} :
    SameCall (.ok call) (.ok call') ↔ call.effective = call'.effective := by
  refine ⟨And.left, fun h => ⟨h, fun cfg C B => ?_⟩⟩
  rw [← call.program_effective, h, call'.program_effective]

/-- Transports that make the same calls. -/
theorem sameCall_of_iff {h : Except Rejection ServiceCall} {g : Except Status ServiceCall}
    (hiff : ∀ call, h = .ok call ↔ g = .ok call) : SameCall h g := by
  cases h with
  | error e =>
    cases g with
    | error e' => trivial
    | ok call => exact absurd ((hiff call).mpr rfl) (by simp)
  | ok call =>
    rw [(hiff call).mp rfl]
    exact ⟨rfl, fun _ _ _ => rfl⟩

/-- If one transport makes a call, so does the other. -/
theorem SameCall.of_ok {h : Except Rejection ServiceCall} {g : Except Status ServiceCall}
    (hsame : SameCall h g) {call : ServiceCall} (hg : g = .ok call) : ∃ call', h = .ok call' := by
  subst hg
  cases h with
  | error e => exact hsame.elim
  | ok call' => exact ⟨call', rfl⟩

end Outcomes

/-! ### Checks -/

section Checks

variable {S : AppState} {contentType contentId : String}

theorem ensureRegistered_eq_ok {contentApiUrls : String → Option String} :
    ensureRegisteredContentType contentApiUrls contentType = .ok () ↔
      (contentApiUrls contentType).isSome := by
  unfold ensureRegisteredContentType
  split_ifs with h
  · exact iff_of_true rfl h
  · exact iff_of_false (fun he => (by cases he)) h

theorem http_known : S.validateContentType contentType = .ok () ↔ Known S contentType :=
  mapError_eq_ok.trans ensureRegistered_eq_ok

theorem grpc_known : validateContentType S contentType = .ok () ↔ Known S contentType :=
  mapError_eq_ok.trans ensureRegistered_eq_ok

theorem http_knownFilter {filter : Option String} :
    S.validateFilter filter = .ok () ↔ KnownFilter S filter := by
  cases filter with
  | none => exact iff_of_true rfl fun ct h => (by cases h)
  | some ct =>
    refine http_known.trans ⟨fun h ct' hct => ?_, fun h => h ct rfl⟩
    cases hct
    exact h

theorem grpc_knownFilter {filter : Option String} :
    validateFilter S filter = .ok () ↔ KnownFilter S filter := by
  cases filter with
  | none => exact iff_of_true rfl fun ct h => (by cases h)
  | some ct =>
    refine grpc_known.trans ⟨fun h ct' hct => ?_, fun h => h ct rfl⟩
    cases hct
    exact h

theorem readItem_eq_ok {body : BodyItem} {item : Item} :
    readItem S.libs body = .ok item ↔
      ∃ u, S.libs.parseStr body.contentId = some u ∧ item = (body.contentType, u) := by
  unfold readItem
  cases S.libs.parseStr body.contentId with
  | none => exact ⟨fun h => (by cases h), fun ⟨_, h, _⟩ => (by cases h)⟩
  | some u =>
    constructor
    · intro h
      exact ⟨u, rfl, (Except.ok.inj h).symm⟩
    · rintro ⟨u', hu, rfl⟩
      cases hu
      rfl

theorem parseUuid_eq_ok {u : Uuid} :
    parseUuid S.libs.parseStr contentId = .ok u ↔ S.libs.parseStr contentId = some u := by
  unfold parseUuid
  cases S.libs.parseStr contentId with
  | none => exact ⟨fun h => (by cases h), fun h => (by cases h)⟩
  | some u' => exact ⟨fun h => congrArg _ (Except.ok.inj h), fun h => congrArg _ (Option.some.inj h)⟩

theorem contentPath_eq_ok (hL : S.libs.Documented) {item : Item} :
    S.contentPath contentType contentId = .ok item ↔
      (S.libs.pathParams contentType contentId).isSome ∧ Known S contentType ∧
        ∃ u, S.libs.parseStr contentId = some u ∧ item = (contentType, u) := by
  unfold AppState.contentPath
  cases hparams : S.libs.pathParams contentType contentId with
  | none => exact ⟨fun h => (by cases h), fun h => (by cases h.1)⟩
  | some params =>
    obtain rfl := hL.params_eq contentType contentId params hparams
    simp only [check_eq_ok, http_known, Option.isSome_some, true_and]
    refine ⟨fun ⟨hknown, hparse⟩ => ⟨hknown, ?_⟩, fun ⟨hknown, u, hu, hitem⟩ => ⟨hknown, ?_⟩⟩
    · cases hu : S.libs.parseStr contentId with
      | none => rw [hu] at hparse; cases hparse
      | some u => rw [hu] at hparse; exact ⟨u, rfl, (Except.ok.inj hparse).symm⟩
    · rw [hu, hitem]
      rfl

end Checks

/-! ### Calls -/

section Calls

variable {S : AppState} {user : AuthenticatedUser} {contentType contentId : String}
  {call : ServiceCall}

/-- A call about one item, of a client that is let in. -/
theorem grpc_item_eq_ok {f : Item → ServiceCall} :
    (do
      validateContentType S contentType
      let contentId ← parseUuid S.libs.parseStr contentId
      return f (contentType, contentId) : Except Status ServiceCall) = .ok call ↔
      Known S contentType ∧ ∃ u, S.libs.parseStr contentId = some u ∧ call = f (contentType, u) := by
  rw [check_eq_ok, grpc_known, bind_eq_ok]
  simp only [parseUuid_eq_ok]
  refine and_congr_right fun _ => exists_congr fun u => and_congr_right fun _ => ?_
  exact ⟨fun h => (Except.ok.inj h).symm, fun h => congrArg _ h.symm⟩

theorem http_item_eq_ok (hL : S.libs.Documented) {f : Item → ServiceCall} :
    (do
      let item ← S.contentPath contentType contentId
      return f item : Except Rejection ServiceCall) = .ok call ↔
      (S.libs.pathParams contentType contentId).isSome ∧ Known S contentType ∧
        ∃ u, S.libs.parseStr contentId = some u ∧ call = f (contentType, u) := by
  simp only [bind_eq_ok, contentPath_eq_ok hL]
  constructor
  · rintro ⟨item, ⟨hpath, hknown, u, hu, rfl⟩, hcall⟩
    exact ⟨hpath, hknown, u, hu, (Except.ok.inj hcall).symm⟩
  · rintro ⟨hpath, hknown, u, hu, rfl⟩
    exact ⟨_, ⟨hpath, hknown, u, hu, rfl⟩, rfl⟩

/-- A request with its item in the path. -/
theorem sameCall_path {h : Except Rejection ServiceCall} {g : Except Status ServiceCall}
    {f : Item → ServiceCall}
    (hh : ∀ call, h = .ok call ↔ (S.libs.pathParams contentType contentId).isSome ∧
      Known S contentType ∧ ∃ u, S.libs.parseStr contentId = some u ∧ call = f (contentType, u))
    (hg : ∀ call, g = .ok call ↔ Known S contentType ∧
      ∃ u, S.libs.parseStr contentId = some u ∧ call = f (contentType, u)) :
    SameCall h g ↔ PathTaken S contentType contentId := by
  constructor
  · intro hsame hknown hparse
    obtain ⟨u, hu⟩ := Option.isSome_iff_exists.mp hparse
    obtain ⟨call, hcall⟩ := hsame.of_ok ((hg _).mpr ⟨hknown, u, hu, rfl⟩)
    exact ((hh call).mp hcall).1
  · intro htaken
    refine sameCall_of_iff fun call => (hh call).trans (Iff.trans ?_ (hg call).symm)
    refine ⟨And.right, fun hrest => ⟨?_, hrest⟩⟩
    obtain ⟨hknown, u, hu, -⟩ := hrest
    exact htaken hknown (Option.isSome_iff_exists.mpr ⟨u, hu⟩)

/-- No batch endpoint stands in the way of a path with a UUID. -/
theorem deleteRouted_of_parse (hL : S.libs.Documented) {u : Uuid}
    (hu : S.libs.parseStr contentId = some u) : deleteRouted contentType contentId = true := by
  have hlength := hL.parse_length contentId u hu
  unfold deleteRouted
  refine decide_eq_true ?_
  rintro ⟨-, rfl | rfl⟩
  · exact absurd hlength (by decide)
  · exact absurd hlength (by decide)

/-- Over HTTP. -/
theorem http_unlike_eq_ok (hL : S.libs.Documented) :
    unlikeContent S (.ok user) true contentType contentId = .ok call ↔
      (S.libs.pathParams contentType contentId).isSome ∧ Known S contentType ∧
        ∃ u, S.libs.parseStr contentId = some u ∧ call = .unlike user.userId (contentType, u) := by
  cases hrouted : deleteRouted contentType contentId with
  | false =>
    -- a path of a batch endpoint has no UUID
    refine iff_of_false ?_ ?_
    · unfold unlikeContent
      rw [hrouted]
      exact fun h => (by cases h)
    · rintro ⟨-, -, u, hu, -⟩
      rw [deleteRouted_of_parse hL hu] at hrouted
      cases hrouted
  | true =>
    refine Iff.trans (iff_of_eq ?_) (http_item_eq_ok (f := ServiceCall.unlike user.userId) hL)
    unfold unlikeContent
    rw [hrouted]
    rfl

theorem http_like_eq_ok :
    likeContent S (.ok user) true ⟨contentType, contentId⟩ = .ok call ↔
      Known S contentType ∧
        ∃ u, S.libs.parseStr contentId = some u ∧ call = .like user.userId (contentType, u) := by
  show (do
    let item ← readItem S.libs ⟨contentType, contentId⟩
    S.validateContentType item.1
    return .like user.userId item : Except Rejection ServiceCall) = .ok call ↔ _
  rw [bind_eq_ok]
  simp only [readItem_eq_ok]
  constructor
  · rintro ⟨item, ⟨u, hu, rfl⟩, hcall⟩
    obtain ⟨hknown, hcall⟩ := check_eq_ok.mp hcall
    exact ⟨http_known.mp hknown, u, hu, (Except.ok.inj hcall).symm⟩
  · rintro ⟨hknown, u, hu, rfl⟩
    exact ⟨_, ⟨u, hu, rfl⟩, check_eq_ok.mpr ⟨http_known.mpr hknown, rfl⟩⟩

/-- The items of a batch are read alike. -/
theorem items_eq_ok {items : List (String × String)} {f : List Item → ServiceCall} :
    (do
      let items ← (items.map fun i => (⟨i.1, i.2⟩ : BodyItem)).mapM (readItem S.libs)
      S.validateBatchContentTypes items
      return f items : Except Rejection ServiceCall) = .ok call ↔
    (do
      let refs ← extractContentRefs S (items.map fun i => ⟨i.1, i.2⟩)
      validateRefs S refs
      return f refs : Except Status ServiceCall) = .ok call := by
  have hread : ∀ (body : BodyItem) (item : Item), readItem S.libs body = .ok item ↔
      readRef S ⟨body.contentType, body.contentId⟩ = .ok item := by
    intro body item
    rw [readItem_eq_ok]
    unfold readRef
    rw [bind_eq_ok]
    simp only [parseUuid_eq_ok]
    exact exists_congr fun u => and_congr_right fun _ =>
      ⟨fun h => congrArg _ h.symm, fun h => (Except.ok.inj h).symm⟩
  rw [bind_eq_ok, bind_eq_ok]
  refine exists_congr fun refs => and_congr ?_ ?_
  · let asRef : BodyItem → ContentRef := fun body => ⟨body.contentType, body.contentId⟩
    refine (mapM_eq_ok (t := asRef) hread refs).trans ?_
    rw [List.map_map]
    rfl
  · rw [check_eq_ok, check_eq_ok]
    refine and_congr (mapError_eq_ok.trans mapError_eq_ok.symm) ?_
    exact ⟨fun h => congrArg _ (Except.ok.inj h), fun h => congrArg _ (Except.ok.inj h)⟩

end Calls

/-! ### Limits -/

section Limits

theorem clamp_clamp {lo hi : I64} (h : lo.val ≤ hi.val) (limit : I64) :
    clamp lo hi (clamp lo hi limit) = clamp lo hi limit := by
  unfold clamp
  split_ifs with h₁ h₂ h₃ h₄ h₅ h₆ <;> first | rfl | omega

theorem clamp_of_mem {lo hi limit : I64} (hlo : lo.val ≤ limit.val) (hhi : limit.val ≤ hi.val) :
    clamp lo hi limit = limit := by
  unfold clamp
  rw [if_neg (not_lt.mpr hlo), if_neg (not_lt.mpr hhi)]

/-- The limit over HTTP, with its default, and over gRPC, where a limit that is not set is zero:
    the service goes on with the same one if and only if it is set. -/
theorem sameLimit_iff (hi default : I64) (hdefault : 1 < default.val) (hle : default.val ≤ hi.val)
    (limit : Option Int32) :
    clamp (i64 1) hi (clamp (i64 1) hi ((limit.map toI64).getD default)) =
      clamp (i64 1) hi (toI64 (limit.getD 0)) ↔ limit.isSome := by
  have hone : (i64 1).val = 1 := rfl
  rw [clamp_clamp (by omega)]
  cases limit with
  | some n => exact iff_of_true rfl rfl
  | none =>
    refine iff_of_false ?_ (by simp)
    have hzero : clamp (i64 1) hi (toI64 0) = i64 1 := by
      unfold clamp
      exact if_pos (by decide)
    show clamp (i64 1) hi default ≠ clamp (i64 1) hi (toI64 0)
    rw [clamp_of_mem (by omega) hle, hzero]
    intro h
    rw [h] at hdefault
    omega

end Limits

/-! ## The result -/

section Result

variable (S : AppState) (user : AuthenticatedUser)

theorem sameCall_getUserLikes (contentType : Option String) (page : Option Page) :
    SameCall (viaHttp S user (.getUserLikes contentType page))
      (viaGrpc S user (.getUserLikes contentType page)) ↔
      Expressible S (.getUserLikes contentType page) := by
  show SameCall (S.validateFilter contentType >>= fun _ => .ok _)
    (validateFilter S contentType >>= fun _ => .ok _) ↔ _
  by_cases hknown : KnownFilter S contentType
  · rw [http_knownFilter.mpr hknown, grpc_knownFilter.mpr hknown]
    refine sameCall_ok.trans (Iff.trans ?_ (forall_prop_of_true hknown).symm)
    cases page with
    | none =>
      refine iff_of_true ?_ fun p hp => (by cases hp)
      show ServiceCall.getUserLikes _ _ _ (clamp _ _ (clamp _ _ (i64 20))) = _
      rw [clamp_clamp (by decide)]
      rfl
    | some p =>
      have hlimit := sameLimit_iff (i64 100) (i64 20) (by decide) (by decide) p.limit
      constructor
      · intro h p' hp'
        cases hp'
        exact hlimit.mp (ServiceCall.getUserLikes.inj h).2.2.2
      · intro h
        show ServiceCall.getUserLikes _ _ _ (clamp _ _ (clamp _ _ _)) = _
        exact congrArg _ (hlimit.mpr (h p rfl))
  · refine iff_of_true ?_ fun h => absurd h hknown
    refine sameCall_of_iff fun call => iff_of_false (fun h => ?_) fun h => ?_
    · exact hknown (http_knownFilter.mp (check_eq_ok.mp h).1)
    · exact hknown (grpc_knownFilter.mp (check_eq_ok.mp h).1)

theorem sameCall_getLeaderboard (contentType : Option String) (window : Window)
    (limit : Option Int32) :
    SameCall (viaHttp S user (.getLeaderboard contentType window limit))
      (viaGrpc S user (.getLeaderboard contentType window limit)) ↔
      Expressible S (.getLeaderboard contentType window limit) := by
  have hgrpc : ∀ call, viaGrpc S user (.getLeaderboard contentType window limit) = .ok call ↔
      ∃ w, fromStrValue window.text = some w ∧ KnownFilter S contentType ∧
        call = .getLeaderboard contentType w (toI64 (limit.getD 0)) := by
    intro call
    show ((fromProtoWindow window.code).mapError invalidArgument >>= fun w =>
      validateFilter S contentType >>= fun _ => .ok _) = .ok call ↔ _
    rw [window.same, bind_eq_ok]
    refine exists_congr fun w => and_congr (mapError_eq_ok.trans ?_) ?_
    · cases fromProtoWindow window.code with
      | error m => exact ⟨fun h => (by cases h), fun h => (by cases h)⟩
      | ok w' => exact ⟨fun h => congrArg _ (Except.ok.inj h), fun h => congrArg _ (Option.some.inj h)⟩
    · rw [check_eq_ok, grpc_knownFilter]
      exact and_congr_right fun _ => ⟨fun h => (Except.ok.inj h).symm, fun h => congrArg _ h.symm⟩
  have hhttp : ∀ call, viaHttp S user (.getLeaderboard contentType window limit) = .ok call ↔
      ∃ w, fromStrValue window.text = some w ∧ KnownFilter S contentType ∧
        call = .getLeaderboard contentType w
          (clamp (i64 1) (i64 50) ((limit.map toI64).getD (i64 10))) := by
    intro call
    have hallowed : Handlers.withinLimit true = .ok () := rfl
    simp only [viaHttp, Handlers.getLeaderboard, Option.getD_some]
    rw [check_eq_ok, and_iff_right hallowed, check_eq_ok, http_knownFilter]
    cases fromStrValue window.text with
    | none =>
      refine ⟨fun h => (by cases h.2), fun h => ?_⟩
      obtain ⟨w, hw, -⟩ := h
      cases hw
    | some w =>
      constructor
      · rintro ⟨hknown, hcall⟩
        exact ⟨w, rfl, hknown, (Except.ok.inj hcall).symm⟩
      · rintro ⟨w', hw, hknown, rfl⟩
        cases hw
        exact ⟨hknown, rfl⟩
  by_cases haccepted : KnownFilter S contentType ∧ ∃ w, fromStrValue window.text = some w
  · obtain ⟨hknown, w, hw⟩ := haccepted
    rw [(hhttp _).mpr ⟨w, hw, hknown, rfl⟩, (hgrpc _).mpr ⟨w, hw, hknown, rfl⟩, sameCall_ok]
    have hlimit := sameLimit_iff (i64 50) (i64 10) (by decide) (by decide) limit
    constructor
    · intro h _ _
      exact hlimit.mp (ServiceCall.getLeaderboard.inj h).2.2
    · intro h
      show ServiceCall.getLeaderboard _ _ (clamp _ _ (clamp _ _ _)) = _
      exact congrArg _ (hlimit.mpr (h hknown (Option.isSome_iff_exists.mpr ⟨w, hw⟩)))
  · refine iff_of_true ?_ fun hknown hw =>
      absurd ⟨hknown, Option.isSome_iff_exists.mp hw⟩ haccepted
    refine sameCall_of_iff fun call => iff_of_false (fun h => ?_) fun h => ?_
    · obtain ⟨w, hw, hknown, -⟩ := (hhttp call).mp h
      exact haccepted ⟨hknown, w, hw⟩
    · obtain ⟨w, hw, hknown, -⟩ := (hgrpc call).mp h
      exact haccepted ⟨hknown, w, hw⟩

/-- For every authenticated user within the rate limits and every request: both transports
    reject it without a call of the service, or make the same call with the same effective
    arguments, exactly when it is expressible. -/
theorem sameCall_iff (hL : S.libs.Documented) (r : LogicalRequest) :
    SameCall (viaHttp S user r) (viaGrpc S user r) ↔ Expressible S r := by
  cases r with
  | like contentType contentId =>
    refine iff_of_true (sameCall_of_iff fun call => ?_) trivial
    exact http_like_eq_ok.trans (grpc_item_eq_ok (f := ServiceCall.like user.userId)).symm
  | unlike contentType contentId =>
    exact sameCall_path (fun call => http_unlike_eq_ok hL)
      fun call => grpc_item_eq_ok (f := ServiceCall.unlike user.userId)
  | getCount contentType contentId =>
    exact sameCall_path (fun call => http_item_eq_ok (f := ServiceCall.getCount) hL)
      fun call => grpc_item_eq_ok (f := ServiceCall.getCount)
  | getStatus contentType contentId =>
    exact sameCall_path (fun call => http_item_eq_ok (f := ServiceCall.getStatus user.userId) hL)
      fun call => grpc_item_eq_ok (f := ServiceCall.getStatus user.userId)
  | batchCounts items =>
    exact iff_of_true (sameCall_of_iff fun call => items_eq_ok (f := ServiceCall.batchCounts)) trivial
  | batchStatuses items =>
    refine iff_of_true (sameCall_of_iff fun call => ?_) trivial
    exact items_eq_ok (f := ServiceCall.batchStatuses user.userId)
  | getUserLikes contentType page => exact sameCall_getUserLikes S user contentType page
  | getLeaderboard contentType window limit =>
    exact sameCall_getLeaderboard S user contentType window limit

end Result

/-! ### Requests without a limit -/

/-- All time, in a query and in a message. -/
def Window.all : Window := .of .all

/-- A service with posts, and a user of it. -/
def posts : AppState := ⟨plainLibs, fun contentType => if contentType = "post" then some "url" else none⟩

def reader : AuthenticatedUser := ⟨1, "reader"⟩

/-- The leaderboard of all time without a limit, and a page of likes after a cursor without one:
    HTTP calls the service with 10 and 20 (likes.rs:225 and 339), gRPC with 0, which the service
    reads as 1. -/
theorem noLimit_differs :
    viaHttp posts reader (.getLeaderboard none Window.all none) =
        .ok (.getLeaderboard none .all (i64 10)) ∧
      viaGrpc posts reader (.getLeaderboard none Window.all none) =
        .ok (.getLeaderboard none .all (toI64 0)) ∧
      ¬ SameCall (viaHttp posts reader (.getLeaderboard none Window.all none))
        (viaGrpc posts reader (.getLeaderboard none Window.all none)) ∧
      ¬ SameCall (viaHttp posts reader (.getUserLikes none (some ⟨some "cursor", none⟩)))
        (viaGrpc posts reader (.getUserLikes none (some ⟨some "cursor", none⟩))) := by
  refine ⟨rfl, rfl, fun h => ?_, fun h => ?_⟩
  · exact absurd (sameCall_ok.mp h) (by decide)
  · exact absurd (sameCall_ok.mp h) (by decide)

/-- `sameCall_iff` for the posts of the week with a limit, which both transports ask the service
    for, and for the leaderboard without a limit. -/
theorem sameCall_iff_week_noLimit :
    (viaHttp posts reader (.getLeaderboard (some "post") (.of .week) (some 5)) =
        .ok (.getLeaderboard (some "post") .week (i64 5)) ∧
      SameCall (viaHttp posts reader (.getLeaderboard (some "post") (.of .week) (some 5)))
        (viaGrpc posts reader (.getLeaderboard (some "post") (.of .week) (some 5)))) ∧
    (SameCall (viaHttp posts reader (.getLeaderboard none Window.all none))
      (viaGrpc posts reader (.getLeaderboard none Window.all none)) ↔
      Expressible posts (.getLeaderboard none Window.all none)) := by
  refine ⟨⟨rfl, ?_⟩, sameCall_iff posts reader plainLibs_documented _⟩
  exact (sameCall_iff posts reader plainLibs_documented _).mpr fun _ _ => rfl

end SocialApi.Grpc
