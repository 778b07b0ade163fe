import SocialApi.Cache.Touched
import SocialApi.Server
import SocialApi.Services.Ledger

/-!
# What a call of the service may do

* `serve_allowed`: `like` and `unlike` are about the rows, entries and events of their user and
  their item, the other calls for a user look at what belongs to the user, and a call for
  everyone changes no table.
* `request_ownKeys`: the service touches counts, statuses and pages only;
  `getLeaderboard_atBoards`, `refreshAllWindows_atBoards`: the leaderboards and the refresh task
  touch filtered boards only.
* `http_handler`, `grpc_handler`: what holds of every handler holds of every request.
-/

namespace SocialApi.Server

open SocialApi.Concurrent SocialApi.Services SocialApi.Handlers SocialApi.Postgres
open SocialApi.Streams (appErrorToStatus)

/-! ## Operations -/

/-- The user an event is about. -/
def eventUser : LikeEvent → Uuid
  | .liked userId _ _ => userId
  | .unliked userId _ _ => userId

/-- The statuses and pages of the user. -/
def KeyOf (userId : Uuid) : CacheKey → Prop
  | .ls userId' _ _ => userId' = userId
  | .ul userId' _ => userId' = userId
  | _ => False

/-- A statement of a transaction on the row of the user and the item. -/
def OnRow (userId : Uuid) (item : Item) : DbOp → Prop
  | .begin => True
  | .insertLike userId' item' => userId' = userId ∧ item' = item
  | .incrementCount item' => item' = item
  | .selectExisting userId' item' => userId' = userId ∧ item' = item
  | .deleteLike userId' item' => userId' = userId ∧ item' = item
  | .decrementCount item' => item' = item
  | .selectCount item' => item' = item
  | .commit => True
  | .rollback => True
  | .countRow item' => item' = item
  | _ => False

/-- An operation about the user and the item only. -/
def Concerns (userId : Uuid) (item : Item) : SvcOp → Prop
  | .db q => OnRow userId item q
  | .cache o => o.Within fun key => key = countCacheKey item ∨ KeyOf userId key
  | .publish event item' => eventUser event = userId ∧ item' = item
  | _ => True

/-- A query for the rows of the user. -/
def OfUser (userId : Uuid) : DbOp → Prop
  | .getLikeStatus userId' _ => userId' = userId
  | .batchGetStatuses userId' _ => userId' = userId
  | .getUserLikes userId' _ _ _ => userId' = userId
  | _ => False

/-- An operation that looks at what belongs to the user. -/
def Private (userId : Uuid) : SvcOp → Prop
  | .db q => OfUser userId q
  | .cache o => o.Within (KeyOf userId)
  | .publish _ _ => False
  | _ => True

/-- What a call may do. -/
def Performs : ServiceCall → SvcOp → Prop
  | .like userId item, o => Concerns userId item o
  | .unlike userId item, o => Concerns userId item o
  | .getStatus userId _, o => Private userId o
  | .batchStatuses userId _, o => Private userId o
  | .getUserLikes userId _ _ _, o => Private userId o
  | _, o => Reading o

/-- The keys of counts, statuses and pages. -/
def ServiceKey : CacheKey → Prop
  | .lc _ _ => True
  | .ls _ _ _ => True
  | .ul _ _ => True
  | .tok _ => False
  | .lbf _ _ _ => False

/-- The operation touches no entries but counts, statuses and pages. -/
def OwnKeys : SvcOp → Prop
  | .cache o => o.Within ServiceKey
  | _ => True

/-- The operation touches no strings but filtered boards. -/
def AtBoards : Leaderboard.BoardOp → Prop
  | .cache o => o.Within Leaderboard.Filtered
  | _ => True

/-- What a request may do once its call is made. -/
def Allowed (call : ServiceCall) : Op → Prop
  | .svc o => Performs call o ∧ OwnKeys o
  | .board o => AtBoards o
  | _ => False

theorem KeyOf.serviceKey {userId : Uuid} {key : CacheKey} (h : KeyOf userId key) :
    ServiceKey key := by
  cases key with
  | ls u contentType contentId => trivial
  | ul u contentType => trivial
  | _ => exact h.elim

theorem Concerns.ownKeys {userId : Uuid} {item : Item} {o : SvcOp} (h : Concerns userId item o) :
    OwnKeys o := by
  cases o with
  | cache o =>
    refine h.mono fun key hkey => ?_
    rcases hkey with rfl | hkey
    · trivial
    · exact hkey.serviceKey
  | _ => trivial

theorem Private.ownKeys {userId : Uuid} {o : SvcOp} (h : Private userId o) : OwnKeys o := by
  cases o with
  | cache o => exact h.mono fun key hkey => hkey.serviceKey
  | _ => trivial

section Programs

variable {E α : Type} {Ans : E → Type} {cfg : Services.Config} {C : Codec}

/-! ## `like` and `unlike` -/

theorem repo_attempt_all {P : DbOp → Prop} {q : DbOp} {f : q.Rows → Repositories.Repo α} (hq : P q)
    (hf : ∀ a, (f a).All P) : (Repositories.attempt q f).All P := by
  refine ⟨hq, fun r => ?_⟩
  cases r with
  | ok a => exact hf a
  | error e => trivial

theorem repo_inTx_all {P : DbOp → Prop} {q : DbOp} {f : q.Rows → Repositories.Repo α} (hq : P q)
    (hroll : P .rollback) (hf : ∀ a, (f a).All P) : (Repositories.inTx q f).All P := by
  refine ⟨hq, fun r => ?_⟩
  cases r with
  | ok a => exact hf a
  | error e => exact ⟨hroll, fun _ => trivial⟩

theorem insertLike_onRow (userId : Uuid) (item : Item) :
    (Repositories.insertLike userId item).All (OnRow userId item) := by
  refine repo_attempt_all trivial fun _ => ?_
  refine repo_inTx_all ⟨rfl, rfl⟩ trivial fun row => ?_
  cases row with
  | some likeRow =>
    refine repo_inTx_all rfl trivial fun count => ?_
    exact repo_attempt_all trivial fun _ => trivial
  | none =>
    refine repo_inTx_all ⟨rfl, rfl⟩ trivial fun existing => ?_
    refine repo_attempt_all trivial fun _ => ?_
    cases existing with
    | some found => trivial
    | none => exact repo_attempt_all rfl fun _ => trivial

theorem deleteLike_onRow (userId : Uuid) (item : Item) :
    (Repositories.deleteLike userId item).All (OnRow userId item) := by
  refine repo_attempt_all trivial fun _ => ?_
  refine repo_inTx_all ⟨rfl, rfl⟩ trivial fun rowsAffected => ?_
  show Prog.All _ (if rowsAffected > 0 then _ else _)
  split_ifs
  · refine repo_inTx_all rfl trivial fun count => ?_
    exact repo_attempt_all trivial fun _ => trivial
  · refine repo_inTx_all rfl trivial fun count => ?_
    exact repo_attempt_all trivial fun _ => trivial

theorem cache_all {P : SvcOp → Prop} {p : Cache.CacheM α} (h : p.All fun o => P (.cache o)) :
    (cache p).All P :=
  h.lift

theorem db_all {P : SvcOp → Prop} {p : Repositories.Repo α} (h : p.All fun q => P (.db q)) :
    (db p).All P :=
  (h.lift (S := P)).bind fun _ => trivial

variable {userId : Uuid} {item : Item}

theorem validateContent_concerns : (validateContent item).All (Concerns userId item) := by
  refine (validateContent_ofBreaker item).mono fun o ho => ?_
  cases o <;> trivial

theorem writeCount_concerns (count : I64) :
    (writeCount cfg item count).All (Concerns userId item) :=
  cache_all (Cache.set_within (Or.inl rfl) _ _)

theorem updateStatusCache_concerns (likedAt : Option DateTime) :
    (updateStatusCache cfg C userId item likedAt).All (Concerns userId item) :=
  cache_all (Cache.set_within (Or.inr rfl) _ _)

theorem invalidateUserLikes_concerns (contentType : String) :
    (invalidateUserLikes userId contentType).All (Concerns userId item) := by
  refine Prog.All.bind (cache_all (Cache.invalidateL1Prefix_within fun _ => Or.inr rfl)) fun _ => ?_
  refine cache_all (Cache.delMany_within fun key hkey => Or.inr ?_)
  simp only [List.mem_cons, List.not_mem_nil, or_false] at hkey
  rcases hkey with rfl | rfl
  · rfl
  · rfl

theorem like_concerns : (like cfg C userId item).All (Concerns userId item) := by
  refine all_attempt validateContent_concerns fun _ => ?_
  refine all_attempt (db_all (insertLike_onRow userId item)) fun result => ?_
  cases result with
  | inserted row count =>
    refine (writeCount_concerns count).bind fun _ => ?_
    refine (updateStatusCache_concerns _).bind fun _ => ?_
    refine (invalidateUserLikes_concerns _).bind fun _ => ?_
    exact ⟨⟨rfl, rfl⟩, fun _ => trivial⟩
  | alreadyExisted row count =>
    refine (writeCount_concerns count).bind fun _ => ?_
    exact (updateStatusCache_concerns _).bind fun _ => trivial
  | concurrentlyRemoved count => trivial

theorem unlike_concerns : (unlike cfg C userId item).All (Concerns userId item) := by
  refine all_attempt validateContent_concerns fun _ => ?_
  refine all_attempt (db_all (deleteLike_onRow userId item)) fun result => ?_
  refine (writeCount_concerns _).bind fun _ => ?_
  refine (updateStatusCache_concerns _).bind fun _ => ?_
  refine (invalidateUserLikes_concerns _).bind fun _ => ?_
  show Prog.All _ (if result.wasLiked then _ else _)
  split_ifs
  · exact ⟨trivial, fun _ => ⟨⟨rfl, rfl⟩, fun _ => trivial⟩⟩
  · trivial

/-! ## Statuses and pages -/

theorem getStatus_private (item : Item) :
    (Services.getStatus cfg C userId item).All (Private userId) := by
  have hkey : KeyOf userId (statusCacheKey userId item) := rfl
  refine Prog.All.bind (cache_all (Cache.get_within hkey)) fun cached => ?_
  cases cached with
  | some text => trivial
  | none =>
    refine all_attempt (db_all ⟨rfl, fun _ => trivial⟩) fun likedAt => ?_
    exact Prog.All.bind (cache_all (Cache.set_within hkey _ _)) fun _ => trivial

theorem batchStatuses_private (items : List Item) :
    (Services.batchStatuses cfg C userId items).All (Private userId) := by
  unfold Services.batchStatuses
  split_ifs
  · trivial
  · have hkeys : ∀ key ∈ items.map (statusCacheKey userId), KeyOf userId key := by
      intro key hkey
      obtain ⟨item, -, rfl⟩ := List.mem_map.mp hkey
      rfl
    refine Prog.All.bind (cache_all (Cache.mget_within hkeys)) fun cached => ?_
    dsimp only
    split_ifs
    · trivial
    · refine all_attempt (db_all ?_) fun rows => ?_
      · unfold Repositories.batchGetStatuses
        split_ifs
        · trivial
        · exact ⟨rfl, fun _ => trivial⟩
      · refine Prog.All.bind (cache_all (Cache.setMany_within ?_)) fun _ => trivial
        intro e he
        rcases fillStatuses_entries _ _ _ e he with hold | ⟨item, -, hkey, -⟩
        · cases hold
        · rw [hkey]
          rfl

theorem getUserLikes_private (contentTypeFilter cursor : Option String) (limit : I64) :
    (Services.getUserLikes cfg C userId contentTypeFilter cursor limit).All (Private userId) := by
  cases cursor with
  | none =>
    have hkey : KeyOf userId (.ul userId (contentTypeFilter.getD "_")) := rfl
    refine Prog.All.bind (cache_all (Cache.get_within hkey)) fun cached => ?_
    split
    · trivial
    · refine all_attempt (db_all ⟨rfl, fun _ => trivial⟩) fun rows => ?_
      dsimp only
      split
      · exact Prog.All.bind (cache_all (Cache.set_within hkey _ _)) fun _ => trivial
      · trivial
  | some cursor =>
    show Prog.All (Private userId) (nextPage C userId contentTypeFilter cursor (clampLimit limit))
    unfold nextPage
    split
    · trivial
    · exact all_attempt (db_all ⟨rfl, fun _ => trivial⟩) fun rows => trivial

/-! ## Counts -/

theorem flight_ownKeys (o : PendingFetches.Op) : (flight o).All OwnKeys :=
  ⟨trivial, fun _ => trivial⟩

theorem db_ownKeys (p : Repositories.Repo α) : (db p).All OwnKeys :=
  db_all (Prog.all_of_forall (fun _ => trivial) p)

theorem writeCount_ownKeys (item : Item) (count : I64) : (writeCount cfg item count).All OwnKeys :=
  cache_all (Cache.set_within trivial _ _)

theorem awaitSharedCount_ownKeys (rx : PendingFetches.Receiver) :
    (awaitSharedCount rx).All OwnKeys := by
  refine (flight_ownKeys _).bind fun outcome => ?_
  cases outcome with
  | value => exact flight_ownKeys _
  | _ => trivial

theorem removePending_ownKeys (key : CacheKey) : (removePending key).All OwnKeys := by
  refine (flight_ownKeys _).bind fun sender => ?_
  cases sender with
  | none => trivial
  | some tx => exact flight_ownKeys _

theorem getCountValue_ownKeys (item : Item) : (getCountValue cfg item).All OwnKeys := by
  refine Prog.All.bind (cache_all (Cache.get_within trivial)) fun cached => ?_
  split
  · trivial
  · refine (flight_ownKeys _).bind fun entry => ?_
    cases entry with
    | follower rx =>
      refine (awaitSharedCount_ownKeys rx).bind fun shared => ?_
      cases shared with
      | some count => exact (flight_ownKeys _).bind fun _ => trivial
      | none => exact (db_ownKeys _).bind fun _ => (flight_ownKeys _).bind fun _ => trivial
    | leader tx =>
      refine (db_ownKeys _).bind fun result => ?_
      cases result with
      | ok count =>
        refine (flight_ownKeys _).bind fun _ => (removePending_ownKeys _).bind fun _ => ?_
        exact (writeCount_ownKeys item count).bind fun _ => (flight_ownKeys _).bind fun _ => trivial
      | error error =>
        exact (removePending_ownKeys _).bind fun _ => (flight_ownKeys _).bind fun _ => trivial

theorem electLoop_ownKeys (items : List Item) (missing : MissingMap) (keys : List CacheKey)
    (e : Election) : (electLoop items missing keys e).All OwnKeys := by
  induction keys generalizing e with
  | nil => trivial
  | cons key keys ih =>
    refine (flight_ownKeys _).bind fun entry => ?_
    cases entry with
    | follower rx => exact ih _
    | leader tx => exact ih _

theorem leaderLoop_ownKeys (items : List Item) (missing : MissingMap)
    (countMap : Item → Option I64) (keys : List CacheKey) (results : List BatchCountResult)
    (entries : List (CacheKey × String × ℕ)) :
    (leaderLoop cfg items missing countMap keys results entries).All OwnKeys := by
  induction keys generalizing results entries with
  | nil => trivial
  | cons key keys ih =>
    refine (flight_ownKeys _).bind fun sender => ?_
    cases sender with
    | none => exact ih _ _
    | some tx => exact (flight_ownKeys _).bind fun _ => (flight_ownKeys _).bind fun _ => ih _ _

theorem removeLoop_ownKeys (keys : List CacheKey) : (removeLoop keys).All OwnKeys := by
  induction keys with
  | nil => trivial
  | cons key keys ih => exact (removePending_ownKeys key).bind fun _ => ih

theorem dropReceivers_ownKeys (rxs : List (CacheKey × PendingFetches.Receiver)) :
    (dropReceivers rxs).All OwnKeys := by
  induction rxs with
  | nil => trivial
  | cons rx rxs ih => exact (flight_ownKeys _).bind fun _ => ih

theorem followerLoop_ownKeys (items : List Item) (missing : MissingMap)
    (rxs : List (CacheKey × PendingFetches.Receiver)) (results : List BatchCountResult) :
    (followerLoop cfg items missing rxs results).All OwnKeys := by
  induction rxs generalizing results with
  | nil => trivial
  | cons rx rxs ih =>
    obtain ⟨key, rx⟩ := rx
    refine (awaitSharedCount_ownKeys rx).bind fun shared => ?_
    cases shared with
    | some count => exact (flight_ownKeys _).bind fun _ => ih _
    | none =>
      dsimp only
      cases firstItem items missing key with
      | none => exact (flight_ownKeys _).bind fun _ => ih _
      | some item =>
        refine (db_ownKeys _).bind fun result => ?_
        cases result with
        | ok count =>
          exact (writeCount_ownKeys item count).bind fun _ => (flight_ownKeys _).bind fun _ => ih _
        | error error => exact (dropReceivers_ownKeys _).bind fun _ => trivial

/-- A leader stores counts only. -/
theorem fetchMissing_ownKeys (items : List Item) (missing : MissingMap)
    (results : List BatchCountResult) {e : Election}
    (hleads : ∀ key ∈ e.leaderKeys, ∃ item, countCacheKey item = key) :
    (fetchMissing cfg items missing results e).All OwnKeys := by
  unfold fetchMissing
  split_ifs
  · exact followerLoop_ownKeys _ _ _ _
  · refine (db_ownKeys _).bind fun result => ?_
    cases result with
    | ok rows =>
      refine Prog.All.bind_of_ends (leaderLoop_ownKeys _ _ _ _ _ _)
        (leaderLoop_ops cfg items missing (collectRows rows) e.leaderKeys results []).2
        fun filled hfilled => ?_
      refine Prog.All.bind (cache_all (Cache.setMany_within fun entry hentry => ?_))
        fun _ => followerLoop_ownKeys _ _ _ _
      obtain ⟨item, hitem⟩ := hleads _ ((hfilled entry hentry).resolve_left List.not_mem_nil).1
      rw [← hitem]
      trivial
    | error error =>
      exact (removeLoop_ownKeys _).bind fun _ => (dropReceivers_ownKeys _).bind fun _ => trivial

theorem batchCounts_ownKeys (items : List Item) : (Services.batchCounts cfg items).All OwnKeys := by
  unfold Services.batchCounts
  split_ifs
  · trivial
  · refine Prog.All.bind (cache_all (Cache.mget_within fun key hkey => ?_)) fun cached => ?_
    · obtain ⟨item, -, rfl⟩ := List.mem_map.mp hkey
      trivial
    · have htracked := splitCached_tracked cached items
      dsimp only
      split_ifs
      · trivial
      · refine Prog.All.bind (p := perform .hashOrder) ⟨trivial, fun _ => trivial⟩ fun order => ?_
        refine Prog.All.bind_of_ends (electLoop_ownKeys _ _ _ _)
          (electLoop_ops items _ (shuffle order _) ⟨[], [], []⟩).2
          fun e he => fetchMissing_ownKeys items _ _ fun key hkey => ?_
        have hmem := (he key hkey).resolve_left List.not_mem_nil
        obtain ⟨item, -, hitem⟩ := htracked.firstItem ((shuffle_perm order _).mem_iff.mp hmem)
        exact ⟨item, hitem⟩

/-- Every call of the service touches counts, statuses and pages only. -/
theorem request_ownKeys (k : Services.Request) : (k.prog cfg C).All OwnKeys := by
  cases k with
  | mutation k =>
    refine Prog.All.bind ?_ fun _ => trivial
    cases k with
    | like userId item => exact like_concerns.mono fun _ => Concerns.ownKeys
    | unlike userId item => exact unlike_concerns.mono fun _ => Concerns.ownKeys
  | getCount item =>
    exact Prog.All.bind (all_attempt (getCountValue_ownKeys item) fun _ => trivial) fun _ => trivial
  | batchCounts items => exact (batchCounts_ownKeys items).bind fun _ => trivial
  | getStatus userId item =>
    exact ((getStatus_private item).mono fun _ => Private.ownKeys).bind fun _ => trivial
  | batchStatuses userId items =>
    exact ((batchStatuses_private items).mono fun _ => Private.ownKeys).bind fun _ => trivial
  | getUserLikes userId contentTypeFilter cursor limit =>
    exact ((getUserLikes_private contentTypeFilter cursor limit).mono
      fun _ => Private.ownKeys).bind fun _ => trivial

/-! ## Leaderboards -/

theorem board_cache {p : Cache.CacheM α} (h : p.All (Cache.Op.Within Leaderboard.Filtered)) :
    (Leaderboard.cache p).All AtBoards :=
  Prog.All.lift (S := AtBoards) h

theorem windowStart_atBoards (window : TimeWindow) :
    (Leaderboard.windowStart window).All AtBoards := by
  unfold Leaderboard.windowStart
  split
  · exact ⟨trivial, fun _ => trivial⟩
  · trivial

theorem boardFromDatabase_atBoards (contentType : Option String) (window : TimeWindow)
    (limit : ℤ) : (Leaderboard.boardFromDatabase contentType window limit).All AtBoards := by
  refine (windowStart_atBoards window).bind fun since => ⟨trivial, fun rows => ?_⟩
  cases rows <;> trivial

theorem zrevrangeWithScores_atBoards (window : TimeWindow) (start stop : ℤ) :
    (Leaderboard.zrevrangeWithScores window start stop).All AtBoards := by
  have hkeep : ∀ pairs, (Leaderboard.keepRange window start stop pairs).All AtBoards := by
    intro pairs
    unfold Leaderboard.keepRange
    split_ifs
    · exact ⟨trivial, fun _ => trivial⟩
    · trivial
  refine ⟨trivial, fun cached => ?_⟩
  cases cached with
  | some cached => trivial
  | none => exact ⟨trivial, fun pairs => (hkeep pairs).bind fun _ => trivial⟩

theorem getLeaderboard_atBoards (L : Leaderboard.BoardLibs) (contentType : Option String)
    (window : TimeWindow) (limit : ℤ) :
    (Leaderboard.getLeaderboard L contentType window limit).All AtBoards := by
  cases contentType with
  | none =>
    refine (zrevrangeWithScores_atBoards window 0 _).bind fun cached => ?_
    dsimp only
    split_ifs
    · trivial
    · exact boardFromDatabase_atBoards _ _ _
  | some contentType =>
    have hkey : Leaderboard.Filtered (.lbf window contentType (max 1 (min limit 50)).toNat) :=
      trivial
    refine (board_cache (Cache.get_within hkey)).bind fun cached => ?_
    split
    · trivial
    · exact boardFromDatabase_atBoards _ _ _

theorem storeFiltered_atBoards (L : Leaderboard.BoardLibs) (ttl : ℕ) (window : TimeWindow)
    (contentType : String) (rows : Except SqlxError (List (Item × I64))) :
    (Leaderboard.storeFiltered L ttl window contentType rows).All AtBoards := by
  cases rows with
  | error e => trivial
  | ok rows =>
    unfold Leaderboard.storeFiltered
    dsimp only
    split
    · exact board_cache (Cache.set_within trivial _ _)
    · trivial

theorem refreshFiltered_atBoards (L : Leaderboard.BoardLibs) (ttl : ℕ) (window : TimeWindow)
    (since : Option DateTime) (contentTypes : List String) :
    (Leaderboard.refreshFiltered L ttl window since contentTypes).All AtBoards := by
  induction contentTypes with
  | nil => trivial
  | cons contentType contentTypes ih =>
    refine ⟨trivial, fun rows => ?_⟩
    exact (storeFiltered_atBoards L ttl window contentType rows).bind fun _ => ih

theorem refreshAllWindows_atBoards (L : Leaderboard.BoardLibs) (ttl : ℕ)
    (contentTypes : List String) :
    (Leaderboard.refreshAllWindows L ttl contentTypes).All AtBoards := by
  have hwindows : ∀ windows : List TimeWindow,
      (Leaderboard.refreshWindows L ttl contentTypes windows).All AtBoards := by
    intro windows
    induction windows with
    | nil => trivial
    | cons window windows ih =>
      refine Prog.All.bind ?_ fun _ => ih
      refine (windowStart_atBoards window).bind fun since => ⟨trivial, fun rows => ?_⟩
      cases rows with
      | error e => trivial
      | ok rows =>
        refine ⟨trivial, fun _ => ⟨trivial, fun _ => ?_⟩⟩
        exact (refreshFiltered_atBoards L ttl window since contentTypes).bind fun _ => trivial
  exact (hwindows _).bind fun _ => ⟨trivial, fun _ => trivial⟩

/-! ## Every call -/

/-- A program of the service that does what the call may. -/
theorem svc_allowed {call : ServiceCall} {p : Svc α} (hp : p.All (Performs call))
    (hkeys : p.All OwnKeys) : (svc p).All (Allowed call) :=
  Prog.All.lift (S := Allowed call) (hp.and hkeys)

/-- A call of the service does what it may. -/
theorem serve_allowed (S : Setup) (call : ServiceCall) : (serve S call).All (Allowed call) := by
  cases call with
  | like userId item =>
    refine (svc_allowed ?_ (request_ownKeys _)).bind fun _ => trivial
    exact like_concerns.bind fun _ => trivial
  | unlike userId item =>
    refine (svc_allowed ?_ (request_ownKeys _)).bind fun _ => trivial
    exact unlike_concerns.bind fun _ => trivial
  | getCount item =>
    refine (svc_allowed ?_ (request_ownKeys _)).bind fun _ => trivial
    exact Request.reading fun m => nofun
  | getStatus userId item =>
    refine (svc_allowed ?_ (request_ownKeys _)).bind fun _ => trivial
    exact (getStatus_private item).bind fun _ => trivial
  | getUserLikes userId contentTypeFilter cursor limit =>
    refine (svc_allowed ?_ (request_ownKeys _)).bind fun _ => trivial
    exact (getUserLikes_private contentTypeFilter cursor limit).bind fun _ => trivial
  | batchCounts items =>
    refine (svc_allowed ?_ (request_ownKeys _)).bind fun _ => trivial
    exact Request.reading fun m => nofun
  | batchStatuses userId items =>
    refine (svc_allowed ?_ (request_ownKeys _)).bind fun _ => trivial
    exact (batchStatuses_private items).bind fun _ => trivial
  | getLeaderboard contentType window limit =>
    refine Prog.All.bind (Prog.All.lift ?_) fun _ => trivial
    exact getLeaderboard_atBoards S.boards contentType window limit.val

/-! ## Handlers -/

/-- An operation of the limiter. -/
def OfLimiter : Op → Prop
  | .limit _ => True
  | _ => False

theorem limit_ofLimiter (p : Prog RateLimit.Op RateLimit.Op.Ans α) : (limit p).All OfLimiter :=
  Prog.All.lift (Prog.all_of_forall (fun _ => trivial) p)

section Requests

variable {S : Setup} {env : Envelope}

/-- How the handlers limit their callers. -/
inductive HttpLimit (S : Setup) (env : Envelope) :
    (Option AuthenticatedUser → ServerM (Except Rejection Unit)) → Prop where
  | user (quota : Uuid → RateLimit.Request) : HttpLimit S env (userLimit quota)
  | publicRead : HttpLimit S env (readRateLimit S env)

inductive GrpcLimit (S : Setup) (env : Envelope) :
    (Option AuthenticatedUser → ServerM (Except Streams.Status Unit)) → Prop where
  | user (quota : Uuid → RateLimit.Request) : GrpcLimit S env (checkUserLimit quota)
  | publicRead : GrpcLimit S env (checkPublicReadLimit S env)

theorem HttpLimit.ofLimiter {within : Option AuthenticatedUser → ServerM (Except Rejection Unit)}
    (h : HttpLimit S env within) (who : Option AuthenticatedUser) : (within who).All OfLimiter := by
  cases h with
  | user quota =>
    cases who with
    | none => trivial
    | some user => exact (limit_ofLimiter _).bind fun _ => trivial
  | publicRead =>
    refine (limit_ofLimiter _).bind fun admission => ?_
    cases admission <;> trivial

theorem GrpcLimit.ofLimiter
    {within : Option AuthenticatedUser → ServerM (Except Streams.Status Unit)}
    (h : GrpcLimit S env within) (who : Option AuthenticatedUser) : (within who).All OfLimiter := by
  cases h with
  | user quota =>
    cases who with
    | none => trivial
    | some user => exact (limit_ofLimiter _).bind fun _ => trivial
  | publicRead => exact (limit_ofLimiter _).bind fun _ => trivial

/-- What holds of every handler holds of every request over HTTP. -/
theorem http_handler {P : ServerM HttpResult → Prop} (k : HttpCall)
    (hroute : P (.ret (.error .noRoute)))
    (hhandler : ∀ caller extract within, caller = authUser S env ∨ caller = anyone →
      HttpLimit S env within → P (handler S caller extract within (k.call S) .app)) :
    P (http S env k) := by
  unfold http
  split_ifs
  · cases k with
    | likeContent body => exact hhandler _ _ _ (Or.inl rfl) (.user _)
    | unlikeContent contentType contentId => exact hhandler _ _ _ (Or.inl rfl) (.user _)
    | getCount contentType contentId => exact hhandler _ _ _ (Or.inr rfl) .publicRead
    | getStatus contentType contentId => exact hhandler _ _ _ (Or.inl rfl) (.user _)
    | getUserLikes params => exact hhandler _ _ _ (Or.inl rfl) (.user _)
    | batchCounts body => exact hhandler _ _ _ (Or.inr rfl) .publicRead
    | batchStatuses body => exact hhandler _ _ _ (Or.inl rfl) (.user _)
    | getLeaderboard params => exact hhandler _ _ _ (Or.inr rfl) .publicRead
  · exact hroute

/-- The same of every request over gRPC. -/
theorem grpc_handler {P : ServerM GrpcResult → Prop} (k : GrpcCall)
    (hhandler : ∀ caller within, caller = authenticate S env ∨ caller = anyone →
      GrpcLimit S env within →
      P (handler S caller (.ok ()) within (k.call S) appErrorToStatus)) : P (grpc S env k) := by
  have hwrite : P (grpcWrite S env k) := hhandler _ _ (Or.inl rfl) (.user _)
  have hread : P (grpcRead S env k) := hhandler _ _ (Or.inl rfl) (.user _)
  have hpublic : P (grpcPublic S env k) := hhandler _ _ (Or.inr rfl) .publicRead
  cases k with
  | like inner => exact hwrite
  | unlike inner => exact hwrite
  | getCount inner => exact hpublic
  | getStatus inner => exact hread
  | batchCounts items => exact hpublic
  | batchStatuses items => exact hread
  | getUserLikes inner => exact hread
  | getLeaderboard inner => exact hpublic

end Requests

section Handlers

variable {G ε : Type} {P : Protocol Op Op.Ans G}

/-- The rule for `?`. -/
theorem attempt_obeys {β : Type} {p : ServerM (Except ε α)} {f : α → ServerM (Except ε β)}
    {Q : G → α → Prop} {g : G}
    (hp : P.Obeys (fun g result => ∀ a, result = .ok a → Q g a) g p)
    (hf : ∀ g a, Q g a → P.Obeys (fun _ _ => True) g (f a)) :
    P.Obeys (fun _ _ => True) g (attempt p f) := by
  refine hp.bind fun g result hresult => ?_
  cases result with
  | ok a => exact hf g a (hresult a rfl)
  | error e => trivial

/-- The rule for a handler: what is known of the caller, then of the caller within the limit. -/
theorem handler_obeys {S : Setup} {caller : ServerM (Except ε (Option AuthenticatedUser))}
    {extract : Except ε Unit} {within : Option AuthenticatedUser → ServerM (Except ε Unit)}
    {call : Option AuthenticatedUser → Except ε ServiceCall} {ofError : AppError → ε} {g : G}
    {A W : G → Option AuthenticatedUser → Prop}
    (hcaller : P.Obeys (fun g result => ∀ who, result = .ok who → A g who) g caller)
    (hwithin : ∀ g who, A g who →
      P.Obeys (fun g result => result = .ok () → W g who) g (within who))
    (hserve : ∀ g who sc, W g who → call who = .ok sc →
      P.Obeys (fun _ _ => True) g (serve S sc)) :
    P.Obeys (fun _ _ => True) g (handler S caller extract within call ofError) := by
  refine attempt_obeys hcaller fun g who hA => ?_
  have hextract : P.Obeys (fun g' result => ∀ u, result = .ok u → g' = g) g (.ret extract) :=
    fun _ _ => rfl
  refine attempt_obeys hextract fun g' _ hg' => ?_
  rw [hg']
  refine attempt_obeys (Q := fun g _ => W g who) ((hwithin g who hA).mono ?_) fun g _ hW => ?_
  · rintro g result hresult u rfl
    exact hresult rfl
  · have hcall : P.Obeys (fun g' result => ∀ sc, result = .ok sc → g' = g ∧ call who = .ok sc) g
        (.ret (call who)) := fun sc hsc => ⟨rfl, hsc⟩
    refine attempt_obeys hcall fun g' sc hsc => ?_
    rw [hsc.1]
    exact (hserve g who sc hW hsc.2).bind fun _ _ _ => trivial

end Handlers

end Programs

end SocialApi.Server
