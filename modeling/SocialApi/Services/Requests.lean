import SocialApi.Cache.Touched
import SocialApi.Services.CountSources
import SocialApi.Services.LikeQueries
import SocialApi.Services.WriteResponses

/-!
# All calls of the service

`like` and `unlike`, and the calls that read counts, statuses and pages, over one process
with one cache.

* `Request.reading`: a call that reads changes no table and publishes nothing.
-/

namespace SocialApi.Services

open SocialApi.Concurrent SocialApi.Postgres

/-! ## The calls -/

/-- The calls. -/
inductive Request where
  | mutation (k : Mutation)
  | getCount (item : Item)
  | batchCounts (items : List Item)
  | getStatus (userId : Uuid) (item : Item)
  | batchStatuses (userId : Uuid) (items : List Item)
  | getUserLikes (userId : Uuid) (contentTypeFilter : Option String) (cursor : Option String)
      (limit : I64)
  deriving DecidableEq, Repr

/-- What they return. -/
inductive Reply where
  | action (response : LikeActionResponse)
  | count (result : BatchCountResult)
  | counts (results : List BatchCountResult)
  | status (response : LikeStatusResponse)
  | statuses (results : List BatchStatusResult)
  | page (response : PaginatedResponse)
  deriving DecidableEq, Repr

/-- The program of a call. -/
def Request.prog (cfg : Config) (C : Codec) : Request → Svc (Except AppError Reply)
  | mutation k => (k.prog cfg C).bind fun r => .ret (r.map .action)
  | getCount item => (Services.getCount cfg item).bind fun r => .ret (r.map .count)
  | batchCounts items => (Services.batchCounts cfg items).bind fun r => .ret (r.map .counts)
  | getStatus userId item => (Services.getStatus cfg C userId item).bind fun r => .ret (r.map .status)
  | batchStatuses userId items =>
    (Services.batchStatuses cfg C userId items).bind fun r => .ret (r.map .statuses)
  | getUserLikes userId contentTypeFilter cursor limit =>
    (Services.getUserLikes cfg C userId contentTypeFilter cursor limit).bind
      fun r => .ret (r.map .page)

/-- A configuration of the calls. -/
abbrev ServiceConfig (ι : Type) :=
  Configuration ι (World ι) Request SvcOp SvcOp.Ans (Except AppError Reply)

/-- Any number of calls in one process that starts with empty caches over consistent tables. -/
def service {ι : Type} [DecidableEq ι] (cfg : Config) (C : Codec) :
    Pool ι (World ι) Request SvcOp SvcOp.Ans (Except AppError Reply) SvcChoice :=
  servicePool cfg (Request.prog cfg C) fun s =>
    (∃ t, Repositories.Consistent t ∧ s.db.store = .ofTables t) ∧ s.cache = .empty ∧
      s.published = []

/-! ## The calls that read -/

/-- Everything but a statement of a transaction and an event. -/
def Reading : SvcOp → Prop
  | .db q => ReadsOnly q
  | .publish _ _ => False
  | _ => True

theorem cache_reading {α : Type} (p : Cache.CacheM α) : (cache p).All Reading :=
  .lift (Prog.all_of_forall (fun _ => trivial) p)

theorem db_reading {α : Type} {p : Repositories.Repo α} (hp : p.All ReadsOnly) :
    (db p).All Reading :=
  (hp.lift (S := Reading)).bind fun _ => trivial

/-! ### The pending fetches -/

/-- An operation on `pending_fetches`. -/
def OnFlights (o : SvcOp) : Prop := ∃ f, o = .flight f

theorem flight_ops (o : PendingFetches.Op) : (flight o).All OnFlights :=
  ⟨⟨o, rfl⟩, fun _ => trivial⟩

theorem awaitSharedCount_ops (rx : PendingFetches.Receiver) :
    (awaitSharedCount rx).All OnFlights := by
  refine (flight_ops _).bind fun r => ?_
  cases r with
  | value => exact flight_ops _
  | _ => trivial

theorem removePending_ops (key : CacheKey) : (removePending key).All OnFlights := by
  refine (flight_ops _).bind fun r => ?_
  cases r with
  | none => trivial
  | some tx => exact flight_ops _

theorem electLoop_ops (items : List Item) (missing : MissingMap) (keys : List CacheKey)
    (e : Election) : (electLoop items missing keys e).All OnFlights ∧
      (electLoop items missing keys e).Ends fun e' =>
        ∀ key ∈ e'.leaderKeys, key ∈ e.leaderKeys ∨ key ∈ keys := by
  induction keys generalizing e with
  | nil => exact ⟨trivial, fun key hkey => Or.inl hkey⟩
  | cons key keys ih =>
    have hends : ∀ e₁ : Election, (∀ key' ∈ e₁.leaderKeys, key' ∈ e.leaderKeys ∨ key' = key) →
        (electLoop items missing keys e₁).Ends fun e' =>
          ∀ key' ∈ e'.leaderKeys, key' ∈ e.leaderKeys ∨ key' ∈ key :: keys := by
      refine fun e₁ hkeys => (ih e₁).2.mono fun e' he' key' hkey' => ?_
      rcases he' key' hkey' with hmem | hmem
      · rcases hkeys key' hmem with hold | rfl
        · exact Or.inl hold
        · exact Or.inr List.mem_cons_self
      · exact Or.inr (List.mem_cons_of_mem _ hmem)
    refine ⟨(flight_ops _).bind fun entry => ?_, fun entry => ?_⟩
    · cases entry with
      | follower rx => exact (ih _).1
      | leader tx => exact (ih _).1
    · cases entry with
      | follower rx => exact hends _ fun key' hkey' => Or.inl hkey'
      | leader tx =>
        exact hends _ fun key' hkey' => (List.mem_append.mp hkey').imp_right List.mem_singleton.mp

/-- The items to fetch are those of the leader's keys. -/
theorem electLoop_fetch (items : List Item) (missing : MissingMap) (keys : List CacheKey)
    {e : Election} (he : e.toFetch = e.leaderKeys.filterMap (firstItem items missing)) :
    (electLoop items missing keys e).Ends fun e' =>
      e'.toFetch = e'.leaderKeys.filterMap (firstItem items missing) := by
  induction keys generalizing e with
  | nil => exact he
  | cons key keys ih =>
    intro entry
    cases entry with
    | follower rx => exact ih he
    | leader tx =>
      refine ih ?_
      show e.toFetch ++ (firstItem items missing key).toList = _
      rw [List.filterMap_append, he]
      cases hfirst : firstItem items missing key <;> simp [hfirst]

/-- The entries of a leader hold what the query has returned for its keys. -/
theorem leaderLoop_ops (cfg : Config) (items : List Item) (missing : MissingMap)
    (countMap : Item → Option I64) (keys : List CacheKey) (results : List BatchCountResult)
    (entries : List (CacheKey × String × ℕ)) :
    (leaderLoop cfg items missing countMap keys results entries).All OnFlights ∧
      (leaderLoop cfg items missing countMap keys results entries).Ends fun filled =>
        ∀ e ∈ filled.2, e ∈ entries ∨ e.1 ∈ keys ∧
          e.2.1 = (((firstItem items missing e.1).bind countMap).getD 0).toString := by
  induction keys generalizing results entries with
  | nil => exact ⟨trivial, fun e he => Or.inl he⟩
  | cons key keys ih =>
    obtain ⟨hall, hends⟩ := ih
      (setCounts results (missing.positions key)
        (((firstItem items missing key).bind countMap).getD 0))
      (entries ++ [(key, (((firstItem items missing key).bind countMap).getD 0).toString,
        cfg.cacheTtlLikeCountsSecs)])
    have hends := hends.mono fun filled (hfilled : ∀ e ∈ filled.2, _) =>
      (show ∀ e ∈ filled.2, e ∈ entries ∨ e.1 ∈ key :: keys ∧
          e.2.1 = (((firstItem items missing e.1).bind countMap).getD 0).toString from fun e he => by
        rcases hfilled e he with hmem | ⟨hmem, htext⟩
        · rcases List.mem_append.mp hmem with hold | hnew
          · exact Or.inl hold
          · rw [List.mem_singleton.mp hnew]
            exact Or.inr ⟨List.mem_cons_self, rfl⟩
        · exact Or.inr ⟨List.mem_cons_of_mem _ hmem, htext⟩)
    refine ⟨(flight_ops _).bind fun sender => ?_, fun sender => ?_⟩
    · cases sender with
      | none => exact hall
      | some tx => exact (flight_ops _).bind fun _ => (flight_ops _).bind fun _ => hall
    · cases sender with
      | none => exact hends
      | some tx => exact fun _ _ => hends

theorem removeLoop_ops (keys : List CacheKey) : (removeLoop keys).All OnFlights := by
  induction keys with
  | nil => trivial
  | cons key keys ih => exact (removePending_ops key).bind fun _ => ih

theorem dropReceivers_ops (rxs : List (CacheKey × PendingFetches.Receiver)) :
    (dropReceivers rxs).All OnFlights := by
  induction rxs with
  | nil => trivial
  | cons rx rxs ih => exact (flight_ops _).bind fun _ => ih

/-! ### Counts -/

/-- The operations of the calls that read counts: they store nothing but counts. -/
def CountOp : SvcOp → Prop
  | .db q => ReadsOnly q
  | .cache o => ∀ e, o.store = some e → ∃ item, countCacheKey item = e.2.1
  | .flight _ => True
  | .hashOrder => True
  | _ => False

theorem CountOp.reading {o : SvcOp} (h : CountOp o) : Reading o := by
  cases o with
  | db q => exact h
  | publish event item => exact h
  | _ => trivial

theorem db_ops {α : Type} {p : Repositories.Repo α} (hp : p.All ReadsOnly) : (db p).All CountOp :=
  (hp.lift (S := CountOp)).bind fun _ => trivial

theorem OnFlights.countOp {o : SvcOp} (h : OnFlights o) : CountOp o := by
  obtain ⟨f, rfl⟩ := h
  trivial

/-- A program on the pending fetches. -/
theorem countOps_of_flights {α : Type} {p : Svc α} (hp : p.All OnFlights) : p.All CountOp :=
  hp.mono fun _ => OnFlights.countOp

/-- A method of the cache that touches counts only. -/
theorem cache_ops {α : Type} {p : Cache.CacheM α}
    (hp : p.All (Cache.Op.Within fun key => ∃ item, countCacheKey item = key)) :
    (cache p).All CountOp :=
  .lift (hp.mono fun _ ho => ho.storesIn)

theorem writeCount_ops (cfg : Config) (item : Item) (count : I64) :
    (writeCount cfg item count).All CountOp :=
  cache_ops (Cache.set_within ⟨item, rfl⟩ _ _)

theorem getCountRow_ops (item : Item) : (db (Repositories.getCount item)).All CountOp := by
  refine db_ops ⟨trivial, fun r => ?_⟩
  cases r <;> trivial

theorem getCountValue_ops (cfg : Config) (item : Item) : (getCountValue cfg item).All CountOp := by
  refine (cache_ops (Cache.get_within ⟨item, rfl⟩)).bind fun cached => ?_
  split
  · trivial
  · refine (countOps_of_flights (flight_ops _)).bind fun entry => ?_
    cases entry with
    | follower rx =>
      refine (countOps_of_flights (awaitSharedCount_ops rx)).bind fun shared => ?_
      cases shared with
      | some count => exact (countOps_of_flights (flight_ops _)).bind fun _ => trivial
      | none =>
        refine (getCountRow_ops item).bind fun _ => ?_
        exact (countOps_of_flights (flight_ops _)).bind fun _ => trivial
    | leader tx =>
      refine (getCountRow_ops item).bind fun result => ?_
      cases result with
      | ok count =>
        refine (countOps_of_flights (flight_ops _)).bind fun _ => (countOps_of_flights (removePending_ops _)).bind fun _ => ?_
        exact (writeCount_ops cfg item count).bind fun _ => (countOps_of_flights (flight_ops _)).bind fun _ => trivial
      | error error =>
        exact (countOps_of_flights (removePending_ops _)).bind fun _ => (countOps_of_flights (flight_ops _)).bind fun _ => trivial

theorem followerLoop_ops (cfg : Config) (items : List Item) (missing : MissingMap)
    (rxs : List (CacheKey × PendingFetches.Receiver)) (results : List BatchCountResult) :
    (followerLoop cfg items missing rxs results).All CountOp := by
  induction rxs generalizing results with
  | nil => trivial
  | cons rx rxs ih =>
    obtain ⟨key, rx⟩ := rx
    refine (countOps_of_flights (awaitSharedCount_ops rx)).bind fun shared => ?_
    cases shared with
    | some count => exact (countOps_of_flights (flight_ops _)).bind fun _ => ih _
    | none =>
      dsimp only
      cases firstItem items missing key with
      | none => exact (countOps_of_flights (flight_ops _)).bind fun _ => ih _
      | some item =>
        refine (getCountRow_ops item).bind fun result => ?_
        cases result with
        | ok count =>
          exact (writeCount_ops cfg item count).bind fun _ => (countOps_of_flights (flight_ops _)).bind fun _ => ih _
        | error error => exact (countOps_of_flights (dropReceivers_ops _)).bind fun _ => trivial

theorem fetchMissing_ops (cfg : Config) (items : List Item) (missing : MissingMap)
    (results : List BatchCountResult) {e : Election}
    (hleads : ∀ key ∈ e.leaderKeys, ∃ item, countCacheKey item = key) :
    (fetchMissing cfg items missing results e).All CountOp := by
  unfold fetchMissing
  split_ifs with hfetch
  · exact followerLoop_ops _ _ _ _ _
  · refine Prog.All.bind (db_ops ?_) fun result => ?_
    · rw [Repositories.batchGetCounts, if_neg hfetch]
      exact ⟨trivial, fun _ => trivial⟩
    · cases result with
      | ok rows =>
        obtain ⟨hall, hends⟩ := leaderLoop_ops cfg items missing (collectRows rows) e.leaderKeys
          results []
        refine Prog.All.bind_of_ends (countOps_of_flights hall) hends fun filled hfilled => ?_
        refine (cache_ops (Cache.setMany_within fun entry hentry => ?_)).bind
          fun _ => followerLoop_ops _ _ _ _ _
        exact hleads _ ((hfilled entry hentry).resolve_left List.not_mem_nil).1
      | error error =>
        exact (countOps_of_flights (removeLoop_ops _)).bind fun _ => (countOps_of_flights (dropReceivers_ops _)).bind fun _ => trivial

theorem batchCounts_ops (cfg : Config) (items : List Item) :
    (batchCounts cfg items).All CountOp := by
  unfold batchCounts
  split_ifs
  · trivial
  · refine (cache_ops (Cache.mget_within fun key hkey => ?_)).bind fun cached => ?_
    · obtain ⟨item, -, hitem⟩ := List.mem_map.mp hkey
      exact ⟨item, hitem⟩
    have htracked := splitCached_tracked cached items
    dsimp only
    split_ifs
    · trivial
    · refine Prog.All.bind (p := perform .hashOrder) ⟨trivial, fun _ => trivial⟩ fun order => ?_
      obtain ⟨hall, hends⟩ := electLoop_ops items (splitCached cached 0 items [] []).2
        (shuffle order (splitCached cached 0 items [] []).2.keys) ⟨[], [], []⟩
      refine Prog.All.bind_of_ends (countOps_of_flights hall) hends fun e he => fetchMissing_ops cfg items _ _ ?_
      intro key hkey
      have hmem := (he key hkey).resolve_left List.not_mem_nil
      obtain ⟨item, -, hitem⟩ := htracked.firstItem ((shuffle_perm order _).mem_iff.mp hmem)
      exact ⟨item, hitem⟩

theorem getCountValue_reading (cfg : Config) (item : Item) :
    (getCountValue cfg item).All Reading :=
  (getCountValue_ops cfg item).mono fun _ => CountOp.reading

theorem batchCounts_reading (cfg : Config) (items : List Item) :
    (batchCounts cfg items).All Reading :=
  (batchCounts_ops cfg items).mono fun _ => CountOp.reading

/-! ### Statuses and pages -/

theorem getStatus_reading (cfg : Config) (C : Codec) (userId : Uuid) (item : Item) :
    (getStatus cfg C userId item).All Reading := by
  refine (cache_reading _).bind fun cached => ?_
  cases cached with
  | some text => trivial
  | none =>
    refine all_attempt (db_reading ⟨trivial, fun _ => trivial⟩) fun likedAt => ?_
    exact (cache_reading _).bind fun _ => trivial

theorem batchStatuses_reading (cfg : Config) (C : Codec) (userId : Uuid) (items : List Item) :
    (batchStatuses cfg C userId items).All Reading := by
  unfold batchStatuses
  split_ifs
  · trivial
  · refine (cache_reading _).bind fun cached => ?_
    dsimp only
    split_ifs
    · trivial
    · refine all_attempt (db_reading ?_) fun rows => (cache_reading _).bind fun _ => trivial
      unfold Repositories.batchGetStatuses
      split_ifs
      · trivial
      · exact ⟨trivial, fun _ => trivial⟩

theorem getUserLikes_reading (cfg : Config) (C : Codec) (userId : Uuid)
    (contentTypeFilter cursor : Option String) (limit : I64) :
    (getUserLikes cfg C userId contentTypeFilter cursor limit).All Reading := by
  have hquery : ∀ ts id n, (db (Repositories.getUserLikes userId contentTypeFilter ts id n)).All
      Reading := fun ts id n => db_reading ⟨trivial, fun _ => trivial⟩
  cases cursor with
  | none =>
    refine (cache_reading _).bind fun cached => ?_
    split
    · trivial
    · refine all_attempt (hquery _ _ _) fun rows => ?_
      dsimp only
      split
      · exact (cache_reading _).bind fun _ => trivial
      · trivial
  | some cursor =>
    show Prog.All Reading (nextPage C userId contentTypeFilter cursor (clampLimit limit))
    unfold nextPage
    split
    · trivial
    · exact all_attempt (hquery _ _ _) fun rows => trivial

/-! ### All of them -/

/-- A call that reads changes no table and publishes nothing. -/
theorem Request.reading {cfg : Config} {C : Codec} {k : Request} (hk : ∀ m, k ≠ .mutation m) :
    (k.prog cfg C).All Reading := by
  cases k with
  | mutation m => exact absurd rfl (hk m)
  | getCount item =>
    exact Prog.All.bind (all_attempt (getCountValue_reading cfg item) fun _ => trivial)
      fun _ => trivial
  | batchCounts items => exact (batchCounts_reading cfg items).bind fun _ => trivial
  | getStatus userId item => exact (getStatus_reading cfg C userId item).bind fun _ => trivial
  | batchStatuses userId items =>
    exact (batchStatuses_reading cfg C userId items).bind fun _ => trivial
  | getUserLikes userId contentTypeFilter cursor limit =>
    exact (getUserLikes_reading cfg C userId contentTypeFilter cursor limit).bind fun _ => trivial

end SocialApi.Services
