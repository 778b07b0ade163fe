import SocialApi.Service
import SocialApi.Streams
import SocialApi.Repositories.Leaderboard

/-!
# The leaderboards

`get_leaderboard` of `services/like_queries.rs` and the task of
`tasks/leaderboard_refresh.rs` that fills the caches it reads: one sorted set for each
window (`lb:{window}`), in front of it the process's L1 of ranges of sorted sets, and one
string for each window and content type (`lbf:{window}:{type}:{limit}`) in the two-layer
cache of `SocialApi.Cache`.

What the database and Redis hold is one state (`Boards`); every access to one of them is
an atomic operation (`BoardOp`). `Uuid::parse_str`, `serde_json` and the order in which
Redis ranks members of equal score are not part of the repository; the services use them
through `BoardLibs`, and `BoardLibs.Documented` is what they rely on.

A score is an `f64`. All doubles that occur have integer values, and Redis returns them
as they were stored.
-/

namespace SocialApi.Leaderboard

open SocialApi.Concurrent SocialApi.Postgres SocialApi.Ranking

/-! ## Scores -/

/-- An `f64` with an integer value. -/
abbrev F64 := ℤ

/-- `n as f64`: the nearest double, of two equally near ones the even one. -/
def asF64 (n : ℤ) : F64 :=
  if n.natAbs ≤ 2 ^ 53 then n
  else
    let unit : ℤ := 2 ^ (Nat.log2 n.natAbs - 52)
    let below := n / unit
    let rest := n % unit
    if 2 * rest < unit ∨ 2 * rest = unit ∧ below % 2 = 0 then below * unit else (below + 1) * unit

theorem asF64_of_le {n : ℤ} (h : n.natAbs ≤ 2 ^ 53) : asF64 n = n := if_pos h

/-- `x as i64`, which saturates. -/
def asI64 (x : F64) : I64 :=
  if h : x < -(2 ^ 63) then ⟨-(2 ^ 63), le_refl _, by norm_num⟩
  else if h' : x < 2 ^ 63 then ⟨x, not_lt.mp h, h'⟩
  else ⟨2 ^ 63 - 1, by norm_num, by norm_num⟩

theorem asI64_val (c : I64) : asI64 c.val = c := by
  unfold asI64
  rw [dif_neg (not_lt.mpr c.lower), dif_pos c.upper]

/-! ## Sorted sets -/

/-- A sorted set of Redis: its members with their scores. -/
abbrev SortedSet := List (String × F64)

/-- `ZADD` of one member: its score is replaced if it is there. -/
def zadd (set : SortedSet) (entry : String × F64) : SortedSet :=
  set.filter (fun e => e.1 ≠ entry.1) ++ [entry]

/-- `DEL key` and `ZADD key …` in one transaction. -/
def replaceMembers (members : List (String × F64)) : SortedSet := members.foldl zadd []

/-- What the services take from elsewhere. -/
structure BoardLibs where
  /-- `Uuid::parse_str`. -/
  parseStr : String → Option Uuid
  /-- `serde_json::to_string` of a `Vec<TopLikedItem>`. -/
  itemsToJson : List TopLikedItem → Option String
  /-- `serde_json::from_str` of a `Vec<TopLikedItem>`. -/
  itemsFromJson : String → Option (List TopLikedItem)
  /-- The members of a sorted set from the highest score to the lowest. -/
  rank : SortedSet → SortedSet

/-- What is documented of them. -/
structure BoardLibs.Documented (L : BoardLibs) : Prop where
  parse : ∀ u : Uuid, L.parseStr u.toString = some u
  json : ∀ items, ∃ json, L.itemsToJson items = some json ∧ L.itemsFromJson json = some items
  rank_perm : ∀ set, (L.rank set).Perm set
  rank_descending : ∀ set, Descending Prod.snd (L.rank set)

/-! ### One instance -/

/-- A member with a higher score comes first, of two with the same score the larger text. -/
def RankedBefore (a b : String × F64) : Prop := toLex (b.2, b.1) ≤ toLex (a.2, a.1)

instance : DecidableRel RankedBefore := fun a b => by unfold RankedBefore; infer_instance

instance : Std.Total RankedBefore := ⟨fun _ _ => le_total _ _⟩

instance : IsTrans (String × F64) RankedBefore := ⟨fun _ _ _ hab hbc => le_trans hbc hab⟩

/-- An item as numbers. -/
def itemNumbers (item : TopLikedItem) : List ℕ × ℕ × ℤ :=
  (item.contentType.toList.map Char.toNat, item.contentId.toNat, item.count.val)

def itemOfNumbers (n : List ℕ × ℕ × ℤ) : Option TopLikedItem :=
  (I64.ofInt? n.2.2).map fun count =>
    ⟨String.ofList (n.1.map Char.ofNat), BitVec.ofNat 128 n.2.1, count⟩

/-- `Uuid::parse_str`, the ranking of Redis, and a writer of lists that writes the empty list
    as `serde_json` does and every other list as a number. -/
def plainLibs : BoardLibs where
  parseStr := Uuid.parseStr
  itemsToJson items :=
    if items = [] then some "[]"
    else some (String.ofList (Nat.toDigits 10 (Encodable.encode (items.map itemNumbers))))
  itemsFromJson s :=
    if s = "[]" then some []
    else (I64.parseDigits s.toList).bind fun n =>
      (Encodable.decode n : Option (List (List ℕ × ℕ × ℤ))).bind fun items =>
        items.mapM itemOfNumbers
  rank set := set.insertionSort RankedBefore

theorem itemOfNumbers_itemNumbers (item : TopLikedItem) :
    itemOfNumbers (itemNumbers item) = some item := by
  have hchar : (Char.ofNat ∘ Char.toNat) = id := funext Char.ofNat_toNat
  simp only [itemOfNumbers, itemNumbers, I64.ofInt?_val, Option.map_some, List.map_map, hchar,
    List.map_id, String.ofList_toList, BitVec.ofNat_toNat, BitVec.setWidth_eq]

theorem plainLibs_json (items : List TopLikedItem) :
    ∃ json, plainLibs.itemsToJson items = some json ∧ plainLibs.itemsFromJson json = some items := by
  by_cases hnil : items = []
  · exact ⟨"[]", if_pos hnil, by rw [hnil]; rfl⟩
  · refine ⟨_, if_neg hnil, ?_⟩
    set text := String.ofList (Nat.toDigits 10 (Encodable.encode (items.map itemNumbers)))
      with htext
    have hparse : I64.parseDigits text.toList =
        some (Encodable.encode (items.map itemNumbers)) := by
      rw [htext, String.toList_ofList, I64.parseDigits_toDigits]
    have hne : text ≠ "[]" := by
      intro heq
      rw [heq, show I64.parseDigits "[]".toList = none by decide] at hparse
      cases hparse
    have hmapM : (items.map itemNumbers).mapM itemOfNumbers = some items := by
      clear hparse hne htext hnil
      induction items with
      | nil => rfl
      | cons item items ih =>
        rw [List.map_cons, List.mapM_cons, itemOfNumbers_itemNumbers, ih]
        rfl
    show (if text = "[]" then some [] else _) = _
    rw [if_neg hne, hparse, Option.bind_some, Encodable.encodek, Option.bind_some, hmapM]

theorem plainLibs_documented : plainLibs.Documented where
  parse := Uuid.parseStr_toString
  json := plainLibs_json
  rank_perm set := List.perm_insertionSort RankedBefore set
  rank_descending set := (List.pairwise_insertionSort RankedBefore set).imp fun {a b} hab => by
    have hlex := Prod.Lex.toLex_le_toLex.mp hab
    exact hlex.elim le_of_lt fun h => h.1.le

/-- `ZREVRANGE key start stop WITHSCORES`; negative indices count from the end. -/
def zrevrange (L : BoardLibs) (set : SortedSet) (start stop : ℤ) : List (String × F64) :=
  let start := if start < 0 then max 0 (start + set.length) else start
  let stop := if stop < 0 then stop + set.length else stop
  ((L.rank set).drop start.toNat).take (stop - start + 1).toNat

/-! ## State and operations -/

/-- The committed tables, the string cache, the sorted sets `lb:{window}` in Redis, and the
    entries `lb:{window}:{start}:{stop}` of the process's `l1_zsets`. -/
structure Boards where
  tables : Tables
  cache : Cache.CacheState
  zsets : TimeWindow → SortedSet
  l1Zsets : TimeWindow → ℤ → ℤ → Option (List (String × F64))

/-- The accesses of the service and the task. -/
inductive BoardOp where
  /-- An access to the string cache. -/
  | cache (o : Cache.Op)
  /-- `l1_strings.invalidate_entries_if` with the prefix `lbf:`. -/
  | l1InvalidateFiltered
  /-- `l1_zsets.get`. -/
  | l1ZsetGet (window : TimeWindow) (start stop : ℤ)
  /-- `l1_zsets.insert`. -/
  | l1ZsetInsert (window : TimeWindow) (start stop : ℤ) (pairs : List (String × F64))
  /-- `l1_zsets.invalidate_entries_if` with the prefix `lb:{window}:`. -/
  | l1ZsetInvalidate (window : TimeWindow)
  /-- `ZREVRANGE … WITHSCORES`. -/
  | zrevrange (window : TimeWindow) (start stop : ℤ)
  /-- `MULTI`, `DEL`, `ZADD`, `EXEC`. -/
  | replace (window : TimeWindow) (members : List (String × F64))
  /-- `Utc::now()`. -/
  | utcNow
  /-- `repositories::get_leaderboard` on the reader pool. -/
  | query (contentType : Option String) (since : Option DateTime) (limit : ℤ)

/-- The answers. A failed `ZREVRANGE` is answered like an empty set. -/
@[reducible] def BoardOp.Ans : BoardOp → Type
  | cache o => o.Ans
  | l1InvalidateFiltered => Unit
  | l1ZsetGet _ _ _ => Option (List (String × F64))
  | l1ZsetInsert _ _ _ _ => Unit
  | l1ZsetInvalidate _ => Unit
  | zrevrange _ _ _ => List (String × F64)
  | replace _ _ => Unit
  | utcNow => DateTime
  | query _ _ _ => Except SqlxError (List (Item × I64))

/-- How an operation goes, or what the environment does. -/
inductive BoardChoice where
  | cache (x : Cache.Choice)
  /-- An access to a sorted set works or fails. -/
  | ok
  | fail
  /-- Which of the matching strings an invalidation removes. -/
  | removed (keys : List CacheKey)
  /-- Which of the matching ranges an invalidation removes. -/
  | removedRanges (ranges : List (ℤ × ℤ))
  /-- The time a clock reading returns. -/
  | now (t : DateTime)
  /-- The order in which a query comes to the items, or its error. -/
  | rows (plan : List Item)
  | error (message : String)
  /-- A string leaves a layer. -/
  | expire (layer : Cache.Layer) (key : CacheKey)
  /-- A range leaves `l1_zsets`. -/
  | expireRange (window : TimeWindow) (start stop : ℤ)
  /-- A like or unlike transaction commits its writes. -/
  | commit (writes : List Write)

/-- `key` starts with `lbf:`. -/
def Filtered : CacheKey → Prop
  | .lbf _ _ _ => True
  | _ => False

instance : DecidablePred Filtered
  | .lc _ _ => isFalse id
  | .ls _ _ _ => isFalse id
  | .ul _ _ => isFalse id
  | .tok _ => isFalse id
  | .lbf _ _ _ => isTrue trivial

/-- What one operation does. -/
def handle (L : BoardLibs) (s : Boards) : (o : BoardOp) → BoardChoice → Option (Boards × o.Ans)
  | .cache o, .cache x => (Cache.handle s.cache o x).map fun r => ({ s with cache := r.1 }, r.2)
  | .l1InvalidateFiltered, .removed keys =>
    let l1 key := if Filtered key ∧ key ∈ keys then none else s.cache.l1 key
    some ({ s with cache := { s.cache with l1 := l1 } }, ())
  | .l1ZsetGet window start stop, .ok => some (s, s.l1Zsets window start stop)
  | .l1ZsetInsert window start stop pairs, .ok =>
    let entries := Function.update (s.l1Zsets window) start
      (Function.update (s.l1Zsets window start) stop (some pairs))
    some ({ s with l1Zsets := Function.update s.l1Zsets window entries }, ())
  | .l1ZsetInvalidate window, .removedRanges ranges =>
    let entries start stop :=
      if (start, stop) ∈ ranges then none else s.l1Zsets window start stop
    some ({ s with l1Zsets := Function.update s.l1Zsets window entries }, ())
  | .zrevrange window start stop, .ok =>
    some (s, Leaderboard.zrevrange L (s.zsets window) start stop)
  | .zrevrange _ _ _, .fail => some (s, [])
  | .replace window members, .ok =>
    some ({ s with zsets := Function.update s.zsets window (replaceMembers members) }, ())
  | .replace _ _, .fail => some (s, ())
  | .utcNow, .now t => some (s, t)
  | .query contentType since limit, .rows plan =>
    some (s, s.tables.getLeaderboard plan contentType since limit)
  | .query _ _ _, .error message => some (s, .error (.other message))
  | _, _ => none

/-! ## The service -/

/-- A method of the service or the task. -/
abbrev BoardM (α : Type) := Prog BoardOp BoardOp.Ans α

/-- One operation as a method. -/
def perform (o : BoardOp) : BoardM o.Ans := Prog.perform o

/-- A method of `CacheManager` on strings. -/
def cache {α : Type} (p : Cache.CacheM α) : BoardM α := p.lift .cache fun _ r => r

/-- `now - Duration::seconds(secs)`; nothing happens before the year 0000. -/
def minusSecs (now : DateTime) (secs : ℤ) : DateTime where
  micros := max (-62167219200000000) (min (now.micros - secs * 1000000) now.micros)
  lower := le_max_left _ _
  upper := max_lt (by norm_num) (lt_of_le_of_lt (min_le_right _ _) now.upper)

/-- The beginning of the window, with the clock read if the window has one. -/
def windowStart (window : TimeWindow) : BoardM (Option DateTime) :=
  match window.durationSecs with
  | some secs => do
    let now ← perform .utcNow
    return some (minusSecs now secs)
  | none => return none

/-- `TopLikedItem` from a row of the query. -/
def toTopLikedItem (row : Item × I64) : TopLikedItem := ⟨row.1.1, row.1.2, row.2⟩

/-- The L1 entry for an answer of Redis (cache.rs:356–358). -/
def keepRange (window : TimeWindow) (start stop : ℤ) (pairs : List (String × F64)) :
    BoardM Unit :=
  if pairs ≠ [] then perform (.l1ZsetInsert window start stop pairs) else return ()

/-- `CacheManager::zrevrange_with_scores` (cache.rs:330–366) for `lb:{window}`. -/
def zrevrangeWithScores (window : TimeWindow) (start stop : ℤ) :
    BoardM (List (String × F64)) := do
  match ← perform (.l1ZsetGet window start stop) with
  | some cached => return cached
  | none =>
    let pairs ← perform (.zrevrange window start stop)
    keepRange window start stop pairs
    return pairs

/-- `parse_leaderboard_member` (like_queries.rs:476–496). -/
def parseLeaderboardMember (L : BoardLibs) (member : String) (score : F64) : Option TopLikedItem :=
  let chars := member.toList
  if ':' ∈ chars then
    let contentType := String.ofList (chars.takeWhile (· ≠ ':'))
    let contentId := String.ofList ((chars.dropWhile (· ≠ ':')).drop 1)
    (L.parseStr contentId).map fun contentId => ⟨contentType, contentId, asI64 score⟩
  else none

/-- The query on the database (like_queries.rs:357–376 and 380–401). -/
def boardFromDatabase (contentType : Option String) (window : TimeWindow) (limit : ℤ) :
    BoardM (Except AppError TopLikedResponse) := do
  let since ← windowStart window
  match ← perform (.query contentType since limit) with
  | .ok rows => return .ok ⟨window.asStr, contentType, rows.map toTopLikedItem⟩
  | .error e => return .error (Services.mapDbError e)

/-- `get_leaderboard` (like_queries.rs:307–402). -/
def getLeaderboard (L : BoardLibs) (contentType : Option String) (window : TimeWindow)
    (limit : ℤ) : BoardM (Except AppError TopLikedResponse) :=
  let limit := max 1 (min limit 50)
  match contentType with
  | none => do
    -- unfiltered: the sorted set
    let cached ← zrevrangeWithScores window 0 (limit - 1)
    if cached ≠ [] then
      let items := cached.filterMap fun pair => parseLeaderboardMember L pair.1 pair.2
      return .ok ⟨window.asStr, none, items⟩
    else boardFromDatabase none window limit
  | some ct => do
    -- filtered: the string cache
    let cached ← cache (Cache.get (.lbf window ct limit.toNat))
    match cached.bind L.itemsFromJson with
    | some items => return .ok ⟨window.asStr, some ct, items⟩
    | none => boardFromDatabase (some ct) window limit

/-! ## The task -/

/-- `LEADERBOARD_LIMIT` (leaderboard_refresh.rs:19). -/
def leaderboardLimit : ℤ := 50

/-- `WINDOWS` (leaderboard_refresh.rs:11–16). -/
def windows : List TimeWindow := [.day, .week, .month, .all]

/-- `format!("{ct}:{cid}")`. -/
def memberText (item : Item) : String := item.1 ++ ":" ++ item.2.toString

/-- `CacheManager::replace_sorted_set` (cache.rs:297–324) for `lb:{window}`. -/
def replaceSortedSet (window : TimeWindow) (members : List (String × F64)) : BoardM Unit := do
  perform (.l1ZsetInvalidate window)
  perform (.replace window members)

/-- What becomes of the rows of one content type (leaderboard_refresh.rs:134–162). -/
def storeFiltered (L : BoardLibs) (ttl : ℕ) (window : TimeWindow) (ct : String) :
    Except SqlxError (List (Item × I64)) → BoardM Unit
  | .ok rows =>
    match L.itemsToJson (rows.map toTopLikedItem) with
    | some json => cache (Cache.set (.lbf window ct leaderboardLimit.toNat) json ttl)
    | none => return ()
  | .error _ => return ()

/-- The filtered boards of a window (leaderboard_refresh.rs:125–163), `contentTypes` being the
    keys of `content_api_urls` in the order of the map. -/
def refreshFiltered (L : BoardLibs) (ttl : ℕ) (window : TimeWindow) (since : Option DateTime) :
    List String → BoardM Unit
  | [] => return ()
  | ct :: contentTypes => do
    let answer ← perform (.query (some ct) since leaderboardLimit)
    storeFiltered L ttl window ct answer
    refreshFiltered L ttl window since contentTypes

/-- `refresh_window` (leaderboard_refresh.rs:94–166). -/
def refreshWindow (L : BoardLibs) (ttl : ℕ) (contentTypes : List String) (window : TimeWindow) :
    BoardM (Except String Unit) := do
  let since ← windowStart window
  match ← perform (.query none since leaderboardLimit) with
  | .error e =>
    return .error ("DB query failed for window " ++ window.asStr ++ ": " ++ e.toString)
  | .ok rows =>
    replaceSortedSet window (rows.map fun row => (memberText row.1, asF64 row.2.val))
    refreshFiltered L ttl window since contentTypes
    return .ok ()

/-- The loop of `refresh_all_windows`, which goes on after an error. -/
def refreshWindows (L : BoardLibs) (ttl : ℕ) (contentTypes : List String) :
    List TimeWindow → BoardM Unit
  | [] => return ()
  | window :: rest => do
    let _ ← refreshWindow L ttl contentTypes window
    refreshWindows L ttl contentTypes rest

/-- `refresh_all_windows` (leaderboard_refresh.rs:75–90). -/
def refreshAllWindows (L : BoardLibs) (ttl : ℕ) (contentTypes : List String) :
    BoardM (Except String Unit) := do
  refreshWindows L ttl contentTypes windows
  perform .l1InvalidateFiltered
  return .ok ()

end SocialApi.Leaderboard
