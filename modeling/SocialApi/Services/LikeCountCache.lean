import SocialApi.Service

/-!
# `LikeCountCache`

`services/like_count_cache.rs`: counts through the cache, with one database query
per missing key. The first call that finds no entry in `pending_fetches` becomes
the leader of the key and queries the database; the others follow it.

A `HashMap` is an association list in the order of insertion; where the code
iterates over one, `hashOrder` says in which order. Handles that go out of scope at
the end of a block are dropped by an explicit operation there.
-/

namespace SocialApi.Services

open SocialApi.Concurrent SocialApi.Postgres SocialApi.PendingFetches

/-- `count_cache_key` (like_count_cache.rs:273–275). -/
def countCacheKey (item : Item) : CacheKey := .lc item.1 item.2

/-- `write_count` (like_count_cache.rs:237–246). -/
def writeCount (cfg : Config) (item : Item) (count : I64) : Svc Unit :=
  cache (Cache.set (countCacheKey item) count.toString cfg.cacheTtlLikeCountsSecs)

/-- `await_shared_count` (like_count_cache.rs:248–267). -/
def awaitSharedCount (rx : Receiver) : Svc (Option I64) := do
  match ← flight (.changed rx) with
  | .value => flight (.borrow rx)
  | .closed => return none
  | .timedOut => return none

/-- `self.pending_fetches.remove(…);` as a statement: the removed sender is dropped. -/
def removePending (key : CacheKey) : Svc Unit := do
  match ← flight (.remove key) with
  | some tx => flight (.dropSender tx)
  | none => return ()

/-! ## One item -/

/-- The follower arm of `get_count_value` (like_count_cache.rs:72–80). -/
def followCount (item : Item) (rx : Receiver) : Svc (Except AppError I64) := do
  match ← awaitSharedCount rx with
  | some count =>
    flight (.dropReceiver rx)
    return .ok count
  | none =>
    let result ← db (Repositories.getCount item)
    flight (.dropReceiver rx)
    return result

/-- The leader arm of `get_count_value` (like_count_cache.rs:81–97). -/
def leadCount (cfg : Config) (item : Item) (tx : ChanId) : Svc (Except AppError I64) := do
  match ← db (Repositories.getCount item) with
  | .ok count =>
    flight (.send tx count)
    removePending (countCacheKey item)
    writeCount cfg item count
    flight (.dropSender tx)
    return .ok count
  | .error error =>
    removePending (countCacheKey item)
    flight (.dropSender tx)
    return .error error

/-- `get_count_value` (like_count_cache.rs:38–98). -/
def getCountValue (cfg : Config) (item : Item) : Svc (Except AppError I64) := do
  let cached ← cache (Cache.get (countCacheKey item))
  match cached.bind I64.parse with
  | some count => return .ok count
  | none =>
    match ← flight (.entry (countCacheKey item) true) with
    | .follower rx => followCount item rx
    | .leader tx => leadCount cfg item tx

/-! ## Many items -/

/-- `missing_map`, a `HashMap` from cache keys to positions. -/
abbrev MissingMap := List (CacheKey × List ℕ)

namespace MissingMap

/-- `missing_map.entry(key).or_default().push(index)`. -/
def push : MissingMap → CacheKey → ℕ → MissingMap
  | [], key, index => [(key, [index])]
  | (k, positions) :: rest, key, index =>
    if k = key then (k, positions ++ [index]) :: rest else (k, positions) :: push rest key index

/-- `missing_map[key]`. -/
def positions (missing : MissingMap) (key : CacheKey) : List ℕ :=
  ((missing.find? fun e => e.1 = key).map Prod.snd).getD []

/-- `missing_map.keys()`. -/
def keys (missing : MissingMap) : List CacheKey := missing.map Prod.fst

end MissingMap

/-- The loop over the cached values (like_count_cache.rs:122–145): a hit is a result, a
    miss a placeholder 0. -/
def splitCached (cached : List (Option String)) : ℕ → List Item → List BatchCountResult →
    MissingMap → List BatchCountResult × MissingMap
  | _, [], results, missing => (results, missing)
  | index, item :: rest, results, missing =>
    match (cached[index]?.join).bind I64.parse with
    | some count => splitCached cached (index + 1) rest (results ++ [⟨item.1, item.2, count⟩]) missing
    | none =>
      splitCached cached (index + 1) rest (results ++ [⟨item.1, item.2, 0⟩])
        (missing.push (countCacheKey item) index)

/-- `items[missing_map[key][0]]`. -/
def firstItem (items : List Item) (missing : MissingMap) (key : CacheKey) : Option Item :=
  (missing.positions key).head?.bind fun pos => items[pos]?

/-- `for &pos in positions { results[pos].count = count; }`. -/
def setCounts (results : List BatchCountResult) (positions : List ℕ) (count : I64) :
    List BatchCountResult :=
  positions.foldl (fun results pos => results.modify pos fun r => { r with count := count }) results

/-- `db_rows.into_iter().collect::<HashMap<_, _>>()`: the last row of an item counts. -/
def collectRows {α : Type} (rows : List (Item × α)) (item : Item) : Option α :=
  (rows.reverse.find? fun row => row.1 = item).map Prod.snd

/-- `to_fetch`, `leader_keys` and `follower_rxs`. -/
structure Election where
  toFetch : List Item
  leaderKeys : List CacheKey
  followerRxs : List (CacheKey × Receiver)

/-- The loop over `missing_map.keys()` (like_count_cache.rs:155–168). -/
def electLoop (items : List Item) (missing : MissingMap) : List CacheKey → Election → Svc Election
  | [], acc => return acc
  | key :: keys, acc => do
    match ← flight (.entry key false) with
    | .follower rx =>
      electLoop items missing keys { acc with followerRxs := acc.followerRxs ++ [(key, rx)] }
    | .leader _ =>
      electLoop items missing keys
        { acc with toFetch := acc.toFetch ++ (firstItem items missing key).toList,
                   leaderKeys := acc.leaderKeys ++ [key] }

/-- The loop over `leader_keys` after the query (like_count_cache.rs:183–200): fill in the
    results, take the entry out of the map, send the count. -/
def leaderLoop (cfg : Config) (items : List Item) (missing : MissingMap)
    (countMap : Item → Option I64) : List CacheKey → List BatchCountResult →
    List (CacheKey × String × ℕ) → Svc (List BatchCountResult × List (CacheKey × String × ℕ))
  | [], results, entries => return (results, entries)
  | key :: keys, results, entries => do
    let count := ((firstItem items missing key).bind countMap).getD 0
    match ← flight (.remove key) with
    | some tx =>
      flight (.send tx count)
      flight (.dropSender tx)
    | none => pure ()
    leaderLoop cfg items missing countMap keys (setCounts results (missing.positions key) count)
      (entries ++ [(key, count.toString, cfg.cacheTtlLikeCountsSecs)])

/-- The loop over `leader_keys` after a failed query (like_count_cache.rs:210–212). -/
def removeLoop : List CacheKey → Svc Unit
  | [] => return ()
  | key :: keys => do
    removePending key
    removeLoop keys

/-- `follower_rxs` goes out of scope. -/
def dropReceivers : List (CacheKey × Receiver) → Svc Unit
  | [] => return ()
  | (_, rx) :: rest => do
    flight (.dropReceiver rx)
    dropReceivers rest

/-- The loop over `follower_rxs` (like_count_cache.rs:218–240). -/
def followerLoop (cfg : Config) (items : List Item) (missing : MissingMap) :
    List (CacheKey × Receiver) → List BatchCountResult →
    Svc (Except AppError (List BatchCountResult))
  | [], results => return .ok results
  | (key, rx) :: rest, results => do
    match ← awaitSharedCount rx with
    | some count =>
      flight (.dropReceiver rx)
      followerLoop cfg items missing rest (setCounts results (missing.positions key) count)
    | none =>
      match firstItem items missing key with
      | none =>
        flight (.dropReceiver rx)
        followerLoop cfg items missing rest results
      | some item =>
        match ← db (Repositories.getCount item) with
        | .ok count =>
          writeCount cfg item count
          flight (.dropReceiver rx)
          followerLoop cfg items missing rest (setCounts results (missing.positions key) count)
        | .error error =>
          dropReceivers ((key, rx) :: rest)
          return .error error

/-- The part of `batch_counts` after the election (like_count_cache.rs:170–242). -/
def fetchMissing (cfg : Config) (items : List Item) (missing : MissingMap)
    (results : List BatchCountResult) (e : Election) :
    Svc (Except AppError (List BatchCountResult)) := do
  if e.toFetch = [] then followerLoop cfg items missing e.followerRxs results
  else
    match ← db (Repositories.batchGetCounts e.toFetch) with
    | .ok rows =>
      let filled ← leaderLoop cfg items missing (collectRows rows) e.leaderKeys results []
      cache (Cache.setMany filled.2)
      followerLoop cfg items missing e.followerRxs filled.1
    | .error error =>
      removeLoop e.leaderKeys
      dropReceivers e.followerRxs
      return .error error

/-- `batch_counts` (like_count_cache.rs:102–243). -/
def batchCounts (cfg : Config) (items : List Item) :
    Svc (Except AppError (List BatchCountResult)) := do
  if items.length > 100 then return .error (.batchTooLarge items.length 100)
  else
    let cached ← cache (Cache.mget (items.map countCacheKey))
    let split := splitCached cached 0 items [] []
    if split.2 = [] then return .ok split.1
    else
      let order ← perform .hashOrder
      let e ← electLoop items split.2 (shuffle order split.2.keys) ⟨[], [], []⟩
      fetchMissing cfg items split.2 split.1 e

end SocialApi.Services
