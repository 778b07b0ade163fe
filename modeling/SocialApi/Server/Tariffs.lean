import SocialApi.Concurrent.Effort
import SocialApi.Server.Quota

/-!
# Tariffs

What an operation costs, what a request is allowed, and what the calls of the service cost: no
more statements for a batch of any size than for one item.
-/

namespace SocialApi.Server

open SocialApi.Concurrent SocialApi.Clients SocialApi.Services SocialApi.Handlers

/-! ## Tariffs -/

/-- Every statement costs one. -/
def dbTariff : Tariff Postgres.DbOp Postgres.DbOp.Ans := ⟨fun _ => 1, fun _ _ => 0⟩

/-- Every statement costs one, a validation `w`; a wait for the count of another call that ends
    without one gives one back. -/
def svcTariff (w : ℕ) : Tariff SvcOp SvcOp.Ans where
  cost
    | .db _ => 1
    | .validate _ => w
    | _ => 0
  refund
    | .flight (.changed _), r => if r = .value then 0 else 1
    | .flight (.borrow _), r => if r = none then 1 else 0
    | _, _ => 0

/-- Every query of the leaderboards costs one. -/
def boardTariff : Tariff Leaderboard.BoardOp Leaderboard.BoardOp.Ans where
  cost
    | .query _ _ _ => 1
    | _ => 0
  refund _ _ := 0

/-- Asking for the user of a token costs `w`. -/
def authTariff (w : ℕ) : Tariff AuthOp AuthOp.Ans where
  cost
    | .send _ => w
    | .validateToken _ => w
    | _ => 0
  refund _ _ := 0

/-- A script costs `w`. -/
def limitTariff (w : ℕ) : Tariff RateLimit.Op RateLimit.Op.Ans where
  cost
    | .invokeScript _ _ _ _ _ => w
    | _ => 0
  refund _ _ := 0

/-- Whom a request asks besides Postgres and the caches. -/
inductive Dependency where
  | profileApi
  | contentApi
  | rateLimit
  deriving DecidableEq, Repr

/-- Whom an operation asks. -/
def Op.asks : Op → Option Dependency
  | .auth (.send _) => some .profileApi
  | .auth (.validateToken _) => some .profileApi
  | .svc (.validate _) => some .contentApi
  | .limit (.invokeScript _ _ _ _ _) => some .rateLimit
  | _ => none

/-- The calls of a dependency. -/
def calls (d : Dependency) : Tariff Op Op.Ans where
  cost o := if o.asks = some d then 1 else 0
  refund _ _ := 0

/-- The statements of a request, and its waits in vain. -/
def statements : Tariff Op Op.Ans where
  cost
    | .svc o => (svcTariff 0).cost o
    | .board o => boardTariff.cost o
    | _ => 0
  refund
    | .svc o, r => (svcTariff 0).refund o r
    | _, _ => 0

/-- Both at once, with a price for each dependency. -/
def priced (price : Dependency → ℕ) : Tariff Op Op.Ans where
  cost
    | .auth o => (authTariff (price .profileApi)).cost o
    | .limit o => (limitTariff (price .rateLimit)).cost o
    | .svc o => (svcTariff (price .contentApi)).cost o
    | .board o => boardTariff.cost o
  refund := statements.refund

/-! ## What a request is allowed -/

/-- The statements a request may always send. -/
def Request.credit : Request → ℕ
  | http _ (.likeContent _) => 5
  | http _ (.unlikeContent _ _) => 5
  | http _ _ => 1
  | grpc _ (.like _) => 5
  | grpc _ (.unlike _) => 5
  | grpc _ _ => 1
  | refresh _ contentTypes => 4 * (1 + contentTypes.length)

/-- How often it may ask a dependency: only likes and unlikes have an item validated, and a
    refresh asks nobody. -/
def Request.quota : Request → Dependency → ℕ
  | refresh _ _, _ => 0
  | http _ (.likeContent _), .contentApi => 1
  | http _ (.unlikeContent _ _), .contentApi => 1
  | http _ _, .contentApi => 0
  | grpc _ (.like _), .contentApi => 1
  | grpc _ (.unlike _), .contentApi => 1
  | grpc _ _, .contentApi => 0
  | _, _ => 1

/-- What all of it costs. -/
def Request.bill (price : Dependency → ℕ) (k : Request) : ℕ :=
  k.credit + k.quota .contentApi * price .contentApi + k.quota .rateLimit * price .rateLimit +
    k.quota .profileApi * price .profileApi

/-! ## Calls of the service -/

section Service

variable {α : Type} {cfg : Services.Config} {C : Codec} {w n m : ℕ}

/-- `?` with no transaction open. -/
theorem repo_attempt_pays {q : Postgres.DbOp} {f : q.Rows → Repositories.Repo α}
    (hf : ∀ a, dbTariff.Pays (fun _ => 0) n (f a)) :
    dbTariff.Pays (fun _ => 0) (n + 1) (Repositories.attempt q f) := by
  refine ⟨Nat.le_add_left 1 n, fun r => ?_⟩
  cases r with
  | ok a => exact hf a
  | error e => exact Nat.zero_le _

/-- `?` inside a transaction may roll it back. -/
theorem repo_inTx_pays {q : Postgres.DbOp} {f : q.Rows → Repositories.Repo α}
    (hf : ∀ a, dbTariff.Pays (fun _ => 0) (n + 1) (f a)) :
    dbTariff.Pays (fun _ => 0) (n + 2) (Repositories.inTx q f) := by
  refine ⟨Nat.le_add_left 1 (n + 1), fun r => ?_⟩
  cases r with
  | ok a => exact hf a
  | error e => exact ⟨Nat.le_add_left 1 n, fun _ => Nat.zero_le _⟩

theorem insertLike_pays (userId : Uuid) (item : Item) :
    dbTariff.Pays (fun _ => 0) 5 (Repositories.insertLike userId item) := by
  refine repo_attempt_pays fun _ => ?_
  refine repo_inTx_pays fun row => ?_
  cases row with
  | some likeRow =>
    refine repo_inTx_pays fun count => ?_
    exact repo_attempt_pays fun _ => Nat.zero_le 1
  | none =>
    refine repo_inTx_pays fun existing => ?_
    refine repo_attempt_pays fun _ => ?_
    cases existing with
    | some found => exact Nat.zero_le 1
    | none => exact repo_attempt_pays fun _ => Nat.zero_le 0

theorem deleteLike_pays (userId : Uuid) (item : Item) :
    dbTariff.Pays (fun _ => 0) 5 (Repositories.deleteLike userId item) := by
  refine repo_attempt_pays fun _ => ?_
  refine repo_inTx_pays fun rowsAffected => ?_
  show Tariff.Pays _ _ 3 (if rowsAffected > 0 then _ else _)
  split_ifs
  · refine repo_inTx_pays fun count => ?_
    exact repo_attempt_pays fun _ => Nat.zero_le 1
  · refine repo_inTx_pays fun count => ?_
    exact repo_attempt_pays fun _ => Nat.zero_le 1

/-- One query. -/
theorem one_pays (q : Postgres.DbOp) : dbTariff.Pays (fun _ => n) (n + 1) (.perform q) :=
  ⟨Nat.le_add_left 1 n, fun _ => le_rfl⟩

theorem db_pays {p : Repositories.Repo α} (h : dbTariff.Pays (fun _ => m) n p) :
    (svcTariff w).Pays (fun _ => m) n (db p) := by
  have hlift : (svcTariff w).Pays (fun _ => m) n (p.lift SvcOp.db fun _ r => r) :=
    Tariff.pays_lift h (fun _ => rfl) fun _ _ => rfl
  exact hlift.bind fun _ => le_rfl

/-- What is not about the database or a pending fetch is free. -/
theorem cache_pays (p : Cache.CacheM α) : (svcTariff w).Pays (fun _ => n) n (cache p) :=
  Tariff.pays_of_free (cache_all (Prog.all_of_forall (fun _ => rfl) p))

theorem svc_attempt_pays {β : Type} {p : Svc (Except AppError α)}
    {f : α → Svc (Except AppError β)} (hp : (svcTariff w).Pays (fun _ => m) n p)
    (hf : ∀ a, (svcTariff w).Pays (fun _ => 0) m (f a)) :
    (svcTariff w).Pays (fun _ => 0) n (Services.attempt p f) := by
  refine hp.bind fun result => ?_
  cases result with
  | ok a => exact hf a
  | error e => exact Nat.zero_le m

theorem perform_pays {o : SvcOp} (h : (svcTariff w).cost o = 0) :
    (svcTariff w).Pays (fun _ => n) n (perform o) :=
  Tariff.pays_of_free ⟨h, fun _ => trivial⟩

/-- One validation, if the breaker admits it. -/
theorem validateContent_pays (item : Item) :
    (svcTariff w).Pays (fun _ => n) (n + w) (validateContent item) := by
  refine Tariff.Pays.bind (perform_pays rfl) fun admitted => ?_
  cases admitted with
  | false => exact Nat.le_add_right n w
  | true =>
    refine ⟨Nat.le_add_left w n, fun outcome => ?_⟩
    show Tariff.Pays _ _ (n + w - w) _
    rw [Nat.add_sub_cancel]
    rcases outcome with error | valid | valid
    · exact (perform_pays rfl).bind fun _ => le_rfl
    · cases valid <;> exact le_rfl
    · exact (perform_pays rfl).bind fun _ => by cases valid <;> exact le_rfl

theorem like_pays (userId : Uuid) (item : Item) :
    (svcTariff w).Pays (fun _ => 0) (5 + w) (like cfg C userId item) := by
  refine svc_attempt_pays (m := 5) (validateContent_pays item) fun _ => ?_
  refine svc_attempt_pays (db_pays (insertLike_pays userId item)) fun result => ?_
  cases result with
  | inserted row count =>
    refine (cache_pays _).bind fun _ => (cache_pays _).bind fun _ => ?_
    refine Tariff.Pays.bind ((cache_pays _).bind fun _ => cache_pays _) fun _ => ?_
    exact ⟨le_rfl, fun _ => Nat.zero_le _⟩
  | alreadyExisted row count =>
    exact (cache_pays _).bind fun _ => (cache_pays _).bind fun _ => Nat.zero_le 0
  | concurrentlyRemoved count => exact Nat.zero_le 0

theorem unlike_pays (userId : Uuid) (item : Item) :
    (svcTariff w).Pays (fun _ => 0) (5 + w) (unlike cfg C userId item) := by
  refine svc_attempt_pays (m := 5) (validateContent_pays item) fun _ => ?_
  refine svc_attempt_pays (db_pays (deleteLike_pays userId item)) fun result => ?_
  refine (cache_pays _).bind fun _ => (cache_pays _).bind fun _ => ?_
  refine Tariff.Pays.bind ((cache_pays _).bind fun _ => cache_pays _) fun _ => ?_
  show Tariff.Pays _ _ 0 (if result.wasLiked then _ else _)
  split_ifs
  · exact ⟨le_rfl, fun _ => ⟨le_rfl, fun _ => Nat.zero_le _⟩⟩
  · exact Nat.zero_le 0

theorem getStatus_pays (userId : Uuid) (item : Item) :
    (svcTariff w).Pays (fun _ => 0) 1 (Services.getStatus cfg C userId item) := by
  refine (cache_pays _).bind fun cached => ?_
  cases cached with
  | some text => exact Nat.zero_le 1
  | none =>
    refine svc_attempt_pays (db_pays (one_pays _)) fun likedAt => ?_
    exact (cache_pays _).bind fun _ => Nat.zero_le 0

theorem batchStatuses_pays (userId : Uuid) (items : List Item) :
    (svcTariff w).Pays (fun _ => 0) 1 (Services.batchStatuses cfg C userId items) := by
  unfold Services.batchStatuses
  split_ifs
  · exact Nat.zero_le 1
  · refine (cache_pays _).bind fun cached => ?_
    dsimp only
    split_ifs
    · exact Nat.zero_le 1
    · have hquery : ∀ items, (svcTariff w).Pays (fun _ => 0) 1
          (db (Repositories.batchGetStatuses userId items)) := by
        intro items
        unfold Repositories.batchGetStatuses
        split_ifs
        · exact Nat.zero_le 1
        · exact db_pays (one_pays _)
      refine svc_attempt_pays (hquery _) fun rows => ?_
      exact (cache_pays _).bind fun _ => Nat.zero_le 0

theorem getUserLikes_pays (userId : Uuid) (contentTypeFilter cursor : Option String)
    (limit : I64) :
    (svcTariff w).Pays (fun _ => 0) 1
      (Services.getUserLikes cfg C userId contentTypeFilter cursor limit) := by
  cases cursor with
  | none =>
    refine (cache_pays _).bind fun cached => ?_
    split
    · exact Nat.zero_le 1
    · refine svc_attempt_pays (db_pays (one_pays _)) fun rows => ?_
      dsimp only
      split
      · exact (cache_pays _).bind fun _ => Nat.zero_le 0
      · exact Nat.zero_le 0
  | some cursor =>
    show Tariff.Pays _ _ 1 (nextPage C userId contentTypeFilter cursor (clampLimit limit))
    unfold nextPage
    split
    · exact Nat.zero_le 1
    · exact svc_attempt_pays (db_pays (one_pays _)) fun rows => Nat.zero_le 0

/-! ### Counts -/

theorem getCountRow_pays (item : Item) :
    (svcTariff w).Pays (fun _ => n) (n + 1) (db (Repositories.getCount item)) := by
  refine db_pays ⟨Nat.le_add_left 1 n, fun r => ?_⟩
  cases r <;> exact le_rfl

theorem flight_pays (o : PendingFetches.Op) : (svcTariff w).Pays (fun _ => n) n (flight o) :=
  Tariff.pays_of_free ⟨rfl, fun _ => trivial⟩

theorem removePending_pays (key : CacheKey) :
    (svcTariff w).Pays (fun _ => n) n (removePending key) := by
  refine (flight_pays _).bind fun sender => ?_
  cases sender with
  | none => exact le_rfl
  | some tx => exact flight_pays _

/-- A wait in vain gives one back. -/
theorem awaitSharedCount_pays (rx : PendingFetches.Receiver) :
    (svcTariff w).Pays (fun shared => if shared = none then n + 1 else n) n
      (awaitSharedCount rx) := by
  refine ⟨Nat.zero_le n, fun outcome => ?_⟩
  cases outcome with
  | value =>
    refine ⟨Nat.zero_le n, fun shared => ?_⟩
    cases shared <;> exact le_rfl
  | _ => exact le_rfl

theorem getCountValue_pays (item : Item) :
    (svcTariff w).Pays (fun _ => 0) 1 (getCountValue cfg item) := by
  refine (cache_pays _).bind fun cached => ?_
  split
  · exact Nat.zero_le 1
  · refine (flight_pays _).bind fun entry => ?_
    cases entry with
    | follower rx =>
      refine (awaitSharedCount_pays rx).bind fun shared => ?_
      cases shared with
      | some count => exact (flight_pays _).bind fun _ => Nat.zero_le 1
      | none =>
        refine (getCountRow_pays item).bind fun _ => ?_
        exact (flight_pays _).bind fun _ => Nat.zero_le 1
    | leader tx =>
      refine (getCountRow_pays item).bind fun result => ?_
      cases result with
      | ok count =>
        refine (flight_pays _).bind fun _ => ?_
        refine (removePending_pays _).bind fun _ => (cache_pays _).bind fun _ => ?_
        exact (flight_pays _).bind fun _ => Nat.zero_le 0
      | error error =>
        refine (removePending_pays _).bind fun _ => ?_
        exact (flight_pays _).bind fun _ => Nat.zero_le 0

theorem electLoop_pays (items : List Item) (missing : MissingMap) (keys : List CacheKey)
    (e : Election) : (svcTariff w).Pays (fun _ => n) n (electLoop items missing keys e) := by
  induction keys generalizing e with
  | nil => exact le_rfl
  | cons key keys ih =>
    refine (flight_pays _).bind fun entry => ?_
    cases entry with
    | follower rx => exact ih _
    | leader tx => exact ih _

theorem leaderLoop_pays (items : List Item) (missing : MissingMap)
    (countMap : Item → Option I64) (keys : List CacheKey) (results : List BatchCountResult)
    (entries : List (CacheKey × String × ℕ)) :
    (svcTariff w).Pays (fun _ => n) n
      (leaderLoop cfg items missing countMap keys results entries) := by
  induction keys generalizing results entries with
  | nil => exact le_rfl
  | cons key keys ih =>
    refine (flight_pays _).bind fun sender => ?_
    cases sender with
    | none => exact ih _ _
    | some tx =>
      refine (flight_pays _).bind fun _ => ?_
      exact (flight_pays _).bind fun _ => ih _ _

theorem removeLoop_pays (keys : List CacheKey) :
    (svcTariff w).Pays (fun _ => n) n (removeLoop keys) := by
  induction keys with
  | nil => exact le_rfl
  | cons key keys ih => exact (removePending_pays key).bind fun _ => ih

theorem dropReceivers_pays (rxs : List (CacheKey × PendingFetches.Receiver)) :
    (svcTariff w).Pays (fun _ => n) n (dropReceivers rxs) := by
  induction rxs with
  | nil => exact le_rfl
  | cons rx rxs ih => exact (flight_pays _).bind fun _ => ih

/-- A follower queries the database only after a wait in vain. -/
theorem followerLoop_pays (items : List Item) (missing : MissingMap)
    (rxs : List (CacheKey × PendingFetches.Receiver)) (results : List BatchCountResult) :
    (svcTariff w).Pays (fun _ => 0) n (followerLoop cfg items missing rxs results) := by
  induction rxs generalizing results with
  | nil => exact Nat.zero_le n
  | cons rx rxs ih =>
    obtain ⟨key, rx⟩ := rx
    refine (awaitSharedCount_pays rx).bind fun shared => ?_
    cases shared with
    | some count => exact (flight_pays _).bind fun _ => ih _
    | none =>
      dsimp only
      have hgoes : ∀ results, (svcTariff w).Pays (fun _ => 0) (n + 1)
          (followerLoop cfg items missing rxs results) :=
        fun results => (ih results).mono (Nat.le_add_right n 1) fun _ => le_rfl
      cases firstItem items missing key with
      | none => exact (flight_pays _).bind fun _ => hgoes _
      | some item =>
        refine (getCountRow_pays item).bind fun result => ?_
        cases result with
        | ok count =>
          refine (cache_pays _).bind fun _ => ?_
          exact (flight_pays _).bind fun _ => ih _
        | error error => exact (dropReceivers_pays _).bind fun _ => Nat.zero_le n

theorem batchCounts_pays (items : List Item) :
    (svcTariff w).Pays (fun _ => 0) 1 (Services.batchCounts cfg items) := by
  unfold Services.batchCounts
  split_ifs
  · exact Nat.zero_le 1
  · refine (cache_pays _).bind fun cached => ?_
    dsimp only
    split_ifs
    · exact Nat.zero_le 1
    · refine Tariff.Pays.bind (perform_pays rfl) fun order => ?_
      refine (electLoop_pays _ _ _ _).bind fun e => ?_
      unfold fetchMissing
      split_ifs with hfetch
      · exact followerLoop_pays _ _ _ _
      · have hquery : (svcTariff w).Pays (fun _ => 0) 1
            (db (Repositories.batchGetCounts e.toFetch)) := by
          rw [Repositories.batchGetCounts, if_neg hfetch]
          exact db_pays (one_pays _)
        refine hquery.bind fun result => ?_
        cases result with
        | ok rows =>
          refine (leaderLoop_pays _ _ _ _ _ _).bind fun filled => ?_
          exact (cache_pays _).bind fun _ => followerLoop_pays _ _ _ _
        | error error =>
          exact (removeLoop_pays _).bind fun _ => (dropReceivers_pays _).bind fun _ => Nat.zero_le 0

end Service

end SocialApi.Server
