import SocialApi.Services.LikeCountCache

/-!
# `LikeCommandService`

`services/like_commands.rs`: `like` and `unlike`. Each validates the content through
the circuit breaker, changes the tables in a transaction, writes the new count and
status through the cache, invalidates the user's pages and publishes an event.
-/

namespace SocialApi.Services

open SocialApi.Concurrent SocialApi.Postgres

/-- `validate_content` (like_commands.rs:203–238). A result from the validator's cache is
    not signalled to the breaker. -/
def validateContent (item : Item) : Svc (Except AppError Unit) := do
  if ← perform .allowRequest then
    match ← perform (.validate item) with
    | .ok (.remote valid) =>
      perform .recordSuccess
      if valid then return .ok () else return .error (.contentNotFound item.1 item.2.toString)
    | .ok (.cached valid) =>
      if valid then return .ok () else return .error (.contentNotFound item.1 item.2.toString)
    | .error error =>
      perform .recordFailure
      return .error error
  else return .error (.dependencyUnavailable "content_api")

/-- The text of a status: the timestamp of a like, or the empty string. -/
def statusText (C : Codec) : Option DateTime → String
  | some ts => C.toRfc3339 ts
  | none => ""

/-- `status_cache_key` (like_queries.rs:431–433). -/
def statusCacheKey (userId : Uuid) (item : Item) : CacheKey := .ls userId item.1 item.2

/-- `update_status_cache` (like_commands.rs:169–184). -/
def updateStatusCache (cfg : Config) (C : Codec) (userId : Uuid) (item : Item)
    (likedAt : Option DateTime) : Svc Unit :=
  cache (Cache.set (statusCacheKey userId item) (statusText C likedAt) cfg.cacheTtlLikeStatusSecs)

/-- `invalidate_user_likes` (like_commands.rs:188–197). -/
def invalidateUserLikes (userId : Uuid) (contentType : String) : Svc Unit := do
  cache (Cache.invalidateL1Prefix userId)
  cache (Cache.delMany [.ul userId "_", .ul userId contentType])

/-- `like` (like_commands.rs:55–118). -/
def like (cfg : Config) (C : Codec) (userId : Uuid) (item : Item) :
    Svc (Except AppError LikeActionResponse) :=
  attempt (validateContent item) fun _ =>
  attempt (db (Repositories.insertLike userId item)) fun
    | .inserted row count => do
      writeCount cfg item count
      updateStatusCache cfg C userId item (some row.createdAt)
      invalidateUserLikes userId item.1
      perform (.publish (.liked userId count row.createdAt) item)
      return .ok ⟨true, some false, none, count, some row.createdAt⟩
    | .alreadyExisted row count => do
      writeCount cfg item count
      updateStatusCache cfg C userId item (some row.createdAt)
      return .ok ⟨true, some true, none, count, some row.createdAt⟩
    | .concurrentlyRemoved count => return .ok ⟨true, some true, none, count, none⟩

/-- `unlike` (like_commands.rs:122–165). -/
def unlike (cfg : Config) (C : Codec) (userId : Uuid) (item : Item) :
    Svc (Except AppError LikeActionResponse) :=
  attempt (validateContent item) fun _ =>
  attempt (db (Repositories.deleteLike userId item)) fun result => do
    writeCount cfg item result.count
    updateStatusCache cfg C userId item none
    invalidateUserLikes userId item.1
    if result.wasLiked then
      let timestamp ← perform .now
      perform (.publish (.unliked userId result.count timestamp) item)
      return .ok ⟨false, none, some result.wasLiked, result.count, none⟩
    else return .ok ⟨false, none, some result.wasLiked, result.count, none⟩

end SocialApi.Services
