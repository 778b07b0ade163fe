import SocialApi.Services.LikeCommands

/-!
# `LikeQueryService`

`services/like_queries.rs`: counts, statuses and the pages of a user's likes, each
through the cache. The first page of a user's likes is cached as up to 100 rows and
cut to the requested limit; later pages are keyset queries.
-/

namespace SocialApi.Services

open SocialApi.Concurrent SocialApi.Postgres

/-! ## Counts and statuses -/

/-- `get_count` (like_queries.rs:50–65); the response repeats the item. -/
def getCount (cfg : Config) (item : Item) : Svc (Except AppError BatchCountResult) :=
  attempt (getCountValue cfg item) fun count => return .ok ⟨item.1, item.2, count⟩

/-- `parse_status_cache_value` (like_queries.rs:404–427). -/
def parseStatusCacheValue (C : Codec) (value : String) : LikeStatusResponse :=
  if value = "" then ⟨false, none⟩
  else
    match C.parseFromRfc3339 value with
    | some ts => ⟨true, some ts⟩
    | none => ⟨false, none⟩

/-- `get_status` (like_queries.rs:69–99). -/
def getStatus (cfg : Config) (C : Codec) (userId : Uuid) (item : Item) :
    Svc (Except AppError LikeStatusResponse) := do
  let key := statusCacheKey userId item
  match ← cache (Cache.get key) with
  | some cached => return .ok (parseStatusCacheValue C cached)
  | none =>
    attempt (db (Repositories.getLikeStatus userId item)) fun likedAt => do
      cache (Cache.set key (statusText C likedAt) cfg.cacheTtlLikeStatusSecs)
      return .ok ⟨likedAt.isSome, likedAt⟩

/-- The loop over the cached values (like_queries.rs:233–254): the results, with
    placeholders, and `missing_indices`. -/
def splitStatuses (C : Codec) (cached : List (Option String)) : ℕ → List Item →
    List BatchStatusResult → List ℕ → List BatchStatusResult × List ℕ
  | _, [], results, missing => (results, missing)
  | idx, item :: rest, results, missing =>
    match cached[idx]?.join with
    | some value =>
      let status := parseStatusCacheValue C value
      splitStatuses C cached (idx + 1) rest
        (results ++ [⟨item.1, item.2, status.liked, status.likedAt⟩]) missing
    | none =>
      splitStatuses C cached (idx + 1) rest (results ++ [⟨item.1, item.2, false, none⟩])
        (missing ++ [idx])

/-- The loop over `missing_indices` (like_queries.rs:281–297): the results, filled in, and
    the entries for `set_many`. -/
def fillStatuses (cfg : Config) (C : Codec) (userId : Uuid) (items : List Item)
    (dbMap : Item → Option (Option DateTime)) : List ℕ → List BatchStatusResult →
    List (CacheKey × String × ℕ) → List BatchStatusResult × List (CacheKey × String × ℕ)
  | [], results, entries => (results, entries)
  | idx :: rest, results, entries =>
    match items[idx]? with
    | none => fillStatuses cfg C userId items dbMap rest results entries
    | some item =>
      let likedAt := (dbMap item).join
      fillStatuses cfg C userId items dbMap rest
        (results.modify idx fun r => { r with liked := likedAt.isSome, likedAt := likedAt })
        (entries ++ [(statusCacheKey userId item, statusText C likedAt, cfg.cacheTtlLikeStatusSecs)])

/-- The entries for the statuses that were missing. -/
theorem fillStatuses_entries {cfg : Config} {C : Codec} {userId : Uuid} {items : List Item}
    {dbMap : Item → Option (Option DateTime)} (missing : List ℕ)
    (results : List BatchStatusResult) (entries : List (CacheKey × String × ℕ)) :
    ∀ entry ∈ (fillStatuses cfg C userId items dbMap missing results entries).2, entry ∈ entries ∨
      ∃ item ∈ missing.filterMap (fun idx => items[idx]?),
        entry.1 = statusCacheKey userId item ∧ entry.2.1 = statusText C (dbMap item).join := by
  induction missing generalizing results entries with
  | nil => exact fun entry hentry => Or.inl hentry
  | cons idx missing ih =>
    intro entry hentry
    unfold fillStatuses at hentry
    cases hitem : items[idx]? with
    | none =>
      rw [hitem] at hentry
      rw [List.filterMap_cons_none hitem]
      exact ih _ _ entry hentry
    | some item =>
      rw [hitem] at hentry
      rw [List.filterMap_cons_some hitem]
      rcases ih _ _ entry hentry with hmem | ⟨item', hmem, h⟩
      · rcases List.mem_append.mp hmem with hold | hnew
        · exact Or.inl hold
        · rw [List.mem_singleton.mp hnew]
          exact Or.inr ⟨item, List.mem_cons_self, rfl, rfl⟩
      · exact Or.inr ⟨item', List.mem_cons_of_mem _ hmem, h⟩

/-- `batch_statuses` (like_queries.rs:211–308). -/
def batchStatuses (cfg : Config) (C : Codec) (userId : Uuid) (items : List Item) :
    Svc (Except AppError (List BatchStatusResult)) := do
  if items.length > 100 then return .error (.batchTooLarge items.length 100)
  else
    let cached ← cache (Cache.mget (items.map (statusCacheKey userId)))
    let split := splitStatuses C cached 0 items [] []
    if split.2 = [] then return .ok split.1
    else
      let missingItems := split.2.filterMap fun idx => items[idx]?
      attempt (db (Repositories.batchGetStatuses userId missingItems)) fun rows => do
        let filled := fillStatuses cfg C userId items (collectRows rows) split.2 split.1 []
        cache (Cache.setMany filled.2)
        return .ok filled.1

/-! ## Pages of a user's likes -/

/-- `i64::clamp(1, 100)`. -/
def clampLimit (limit : I64) : ℕ := (max 1 (min limit.val 100)).toNat

/-- The response to a request that shows the first `takeN` of `rows`. -/
def pageResponse (C : Codec) (rows : List LikeRow) (takeN : ℕ) (hasMore : Bool) :
    PaginatedResponse :=
  let shown := rows.take takeN
  { items := shown.map fun row => ⟨row.contentType, row.contentId, row.createdAt⟩,
    nextCursor :=
      if hasMore then shown.getLast?.map fun row => Cursor.encode C ⟨row.createdAt, row.id⟩
      else none,
    hasMore := hasMore }

/-- `build_paginated_response` (like_queries.rs:436–474). -/
def buildPaginatedResponse (C : Codec) (page : CachedUserLikePage) (limit : ℕ) :
    PaginatedResponse :=
  let takeN := min limit page.rows.length
  let hasMore :=
    if page.rows.length > limit then true
    else if page.rows.length = limit then page.hasMore
    else false
  pageResponse C page.rows takeN hasMore

/-- The first page (like_queries.rs:113–151). -/
def firstPage (cfg : Config) (C : Codec) (userId : Uuid) (contentTypeFilter : Option String)
    (limit : ℕ) : Svc (Except AppError PaginatedResponse) := do
  let key : CacheKey := .ul userId (contentTypeFilter.getD "_")
  let cached ← cache (Cache.get key)
  match cached.bind C.pageFromJson with
  | some page => return .ok (buildPaginatedResponse C page limit)
  | none =>
    attempt (db (Repositories.getUserLikes userId contentTypeFilter none none 100)) fun rows => do
      let page : CachedUserLikePage := ⟨rows.take (min 100 rows.length), rows.length > 100⟩
      match C.pageToJson page with
      | some json =>
        cache (Cache.set key json cfg.cacheTtlUserLikesSecs)
        return .ok (buildPaginatedResponse C page limit)
      | none => return .ok (buildPaginatedResponse C page limit)

/-- A page after the first (like_queries.rs:154–200). -/
def nextPage (C : Codec) (userId : Uuid) (contentTypeFilter : Option String)
    (cursor : String) (limit : ℕ) : Svc (Except AppError PaginatedResponse) :=
  match Cursor.decode C cursor with
  | none => return .error (.invalidCursor "Malformed cursor")
  | some c =>
    attempt (db (Repositories.getUserLikes userId contentTypeFilter (some c.timestamp) (some c.id)
      limit)) fun rows =>
    return .ok (pageResponse C rows (min limit rows.length) (rows.length > limit))

/-- `get_user_likes` (like_queries.rs:103–200). -/
def getUserLikes (cfg : Config) (C : Codec) (userId : Uuid) (contentTypeFilter : Option String)
    (cursor : Option String) (limit : I64) : Svc (Except AppError PaginatedResponse) :=
  match cursor with
  | none => firstPage cfg C userId contentTypeFilter (clampLimit limit)
  | some cursor => nextPage C userId contentTypeFilter cursor (clampLimit limit)

end SocialApi.Services
