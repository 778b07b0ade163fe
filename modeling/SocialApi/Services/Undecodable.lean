import SocialApi.Services.FetchedCounts
import SocialApi.Services.Requests

/-!
# Entries that cannot be read

A text under an `lc:`, `ls:` or `ul:` key that the reader of such entries rejects, met by a
request on its own (`Alone`).

* `exec_firstPage`: what this reader answers and leaves behind when the page is missing or
  rejected.
* `heals_iff`: the answer is the one for an absent key, and the key is left with a text that
  agrees with the tables, except that a status reader takes the text for "not liked" and
  leaves it, that `get_count` does not write while another fetch of the key is registered,
  and that a page without a JSON text is not written.
-/

namespace SocialApi.Services

open SocialApi.Concurrent SocialApi.Postgres SocialApi.PendingFetches

variable {ι : Type} [DecidableEq ι]

/-! ## The first page -/

/-- The page that the tables give. -/
def firstRows (t : Tables) (userId : Uuid) (contentTypeFilter : Option String) :
    CachedUserLikePage :=
  let rows := (t.userLikes userId contentTypeFilter none 101).map LikesRow.toLikeRow
  ⟨rows.take (min 100 rows.length), rows.length > 100⟩

section Pages

variable {cfg : Config} {C : Codec} {q : Alone} {i : ι} {s : World ι} {userId : Uuid}
  {contentTypeFilter : Option String} {limit : ℕ}

variable (cfg limit) in
/-- The first page when the cached one is missing or rejected. -/
theorem exec_firstPage
    (hmiss : (s.cache.found q.up (.ul userId (contentTypeFilter.getD "_"))).bind C.pageFromJson =
      none) :
    (firstPage cfg C userId contentTypeFilter limit).exec (quietly cfg q i) s =
      some ({ s with
        cache := match C.pageToJson (firstRows s.db.store.committed userId contentTypeFilter) with
          | some json => (s.cache.loaded q.up [.ul userId (contentTypeFilter.getD "_")]).stored q.up
              (fun _ => json) [.ul userId (contentTypeFilter.getD "_")]
          | none => s.cache.loaded q.up [.ul userId (contentTypeFilter.getD "_")] },
        .ok (buildPaginatedResponse C (firstRows s.db.store.committed userId contentTypeFilter)
          limit)) := by
  let key : CacheKey := .ul userId (contentTypeFilter.getD "_")
  let loaded : World ι := { s with cache := s.cache.loaded q.up [key] }
  have hget : (cache (Cache.get key)).exec (quietly cfg q i) s =
      some (loaded, s.cache.found q.up key) := by
    rw [exec_cache, Cache.exec_get]
    rfl
  have hdb : (db (Repositories.getUserLikes userId contentTypeFilter none none 100)).exec
      (quietly cfg q i) loaded = some (loaded, .ok ((s.db.store.committed.userLikes userId
        contentTypeFilter none 101).map LikesRow.toLikeRow)) := exec_db rfl
  unfold firstPage
  rw [exec_then hget, hmiss]
  dsimp only
  rw [exec_attempt hdb]
  show (match C.pageToJson (firstRows s.db.store.committed userId contentTypeFilter) with
    | some json => _
    | none => _ : Svc _).exec _ _ = _
  cases C.pageToJson (firstRows s.db.store.committed userId contentTypeFilter) with
  | none => rfl
  | some json =>
    have hset := Cache.exec_set q.up loaded.cache (fun _ => json) cfg.cacheTtlUserLikesSecs key
    have hwrite : (cache (Cache.set key json cfg.cacheTtlUserLikesSecs)).exec (quietly cfg q i)
        loaded = some ({ s with
          cache := (s.cache.loaded q.up [key]).stored q.up (fun _ => json) [key] }, ()) := by
      rw [exec_cache, hset]
      rfl
    exact exec_then hwrite

end Pages

/-! ## What a request does about such a text -/

/-- The reader of the entries under the key rejects the text. -/
def Undecodable (C : Codec) : CacheKey → String → Prop
  | .lc _ _, text => I64.parse text = none
  | .ls _ _ _, text => text ≠ "" ∧ C.parseFromRfc3339 text = none
  | .ul _ _, text => C.pageFromJson text = none
  | _, _ => False

/-- The keys that a request looks up. -/
def Request.lookups : Request → List CacheKey
  | getCount item => [countCacheKey item]
  | batchCounts items => if items.length ≤ 100 then items.map countCacheKey else []
  | getStatus userId item => [statusCacheKey userId item]
  | batchStatuses userId items =>
    if items.length ≤ 100 then items.map (statusCacheKey userId) else []
  | getUserLikes userId contentTypeFilter none _ => [.ul userId (contentTypeFilter.getD "_")]
  | _ => []

/-- What the reader of the entries under the key makes of the text is what the tables say. -/
def Request.Agrees (C : Codec) (t : Tables) : Request → CacheKey → String → Prop
  | getUserLikes userId contentTypeFilter _ _, .ul _ _, text =>
    C.pageFromJson text = some (firstRows t userId contentTypeFilter)
  | _, .lc contentType contentId, text =>
    I64.parse text = some (t.totalCount (contentType, contentId))
  | _, .ls userId contentType contentId, text =>
    ¬ Undecodable C (.ls userId contentType contentId) text ∧
      (parseStatusCacheValue C text).likedAt =
        (t.find (userId, (contentType, contentId))).map LikesRow.createdAt
  | _, _, _ => False

/-- The world without an entry of the key. -/
def World.without (s : World ι) (key : CacheKey) : World ι :=
  { s with cache := (s.cache.put .l1 key none).put .redis key none }

/-- The request answers as if the key were absent and leaves it, in L1 and in Redis if that is
    reachable, with a text that agrees with the tables. -/
def Heals (cfg : Config) (C : Codec) (q : Alone) (i : ι) (s : World ι) (k : Request)
    (key : CacheKey) : Prop :=
  ∃ s' s'' reply,
    (k.prog cfg C).exec (quietly cfg q i) s = some (s', .ok reply) ∧
    (k.prog cfg C).exec (quietly cfg q i) (s.without key) = some (s'', .ok reply) ∧
    (∃ text, s'.cache.l1 key = some text ∧ k.Agrees C s'.db.store.committed key text) ∧
    (q.up = true →
      ∃ text, s'.cache.redis key = some text ∧ k.Agrees C s'.db.store.committed key text)

/-- What the request needs for that: it does not read statuses; a count on its own is not being
    fetched; a page has a text. -/
def Request.Mends (C : Codec) (s : World ι) : Request → Prop
  | getCount item => s.flights.pending (countCacheKey item) = none
  | batchCounts _ => True
  | getUserLikes userId contentTypeFilter none _ =>
    (C.pageToJson (firstRows s.db.store.committed userId contentTypeFilter)).isSome = true
  | _ => False

section Heals

variable {cfg : Config} {C : Codec} {q : Alone} {i : ι} {s : World ι} {key : CacheKey}
  {text : String}

omit [DecidableEq ι] in
theorem found_without (up : Bool) (key key' : CacheKey) :
    (s.without key).cache.found up key' =
      if key' = key then none else s.cache.found up key' := by
  unfold Cache.CacheState.found World.without Cache.CacheState.put
  by_cases hkey : key' = key
  · subst hkey
    simp
  · simp [hkey]

/-- A text that the reader rejects does not agree with any tables. -/
theorem not_agrees {t : Tables} {k : Request} (h : Undecodable C key text) :
    ¬ k.Agrees C t key text := by
  cases key with
  | lc contentType contentId =>
    have htext : I64.parse text = none := h
    intro hagrees
    have hcount : I64.parse text = some (t.totalCount (contentType, contentId)) := by
      cases k <;> exact hagrees
    rw [htext] at hcount
    cases hcount
  | ls userId contentType contentId =>
    intro hagrees
    have hdecodes : ¬ Undecodable C (.ls userId contentType contentId) text := by
      cases k <;> exact hagrees.1
    exact hdecodes h
  | ul userId filterKey =>
    have htext : C.pageFromJson text = none := h
    intro hagrees
    cases k with
    | getUserLikes userId' contentTypeFilter cursor limit =>
      have hpage : C.pageFromJson text = some (firstRows t userId' contentTypeFilter) := hagrees
      rw [htext] at hpage
      cases hpage
    | _ => exact hagrees
  | _ => exact h.elim

/-- A request that leaves the rejected text in L1 does not heal the key. -/
theorem not_heals {k : Request} {s' : World ι} {r : Except AppError Reply}
    (hrun : (k.prog cfg C).exec (quietly cfg q i) s = some (s', r))
    (hl1 : s'.cache.l1 key = some text) (htext : Undecodable C key text) :
    ¬ Heals cfg C q i s k key := by
  rintro ⟨s₁, s₂, reply, hrun', -, ⟨text', htext', hagrees⟩, -⟩
  rw [hrun] at hrun'
  cases hrun'
  rw [hl1] at htext'
  obtain rfl := Option.some.inj htext'
  exact not_agrees htext hagrees

theorem exec_reply {α : Type} {p : Svc (Except AppError α)} {f : α → Reply} {s' : World ι} {a : α}
    (h : p.exec (quietly cfg q i) s = some (s', .ok a)) :
    (p.bind fun r => .ret (r.map f)).exec (quietly cfg q i) s = some (s', .ok (f a)) := by
  rw [Prog.exec_bind, h]
  rfl

theorem exec_getCount {item : Item} (hregistered : Registered s.flights)
    (hmiss : (s.cache.found q.up (countCacheKey item)).bind I64.parse = none) :
    ∃ f, ((Request.getCount item).prog cfg C).exec (quietly cfg q i) s =
      some (countsRead s q.up [countCacheKey item]
        (if s.flights.pending (countCacheKey item) = none then [countCacheKey item] else []) f,
        .ok (.count ⟨item.1, item.2, s.db.store.committed.totalCount item⟩)) := by
  obtain ⟨f, hvalue⟩ := exec_getCountValue (i := i) hregistered hmiss
  have hcount : (getCount cfg item).exec (quietly cfg q i) s = some (_,
      .ok (⟨item.1, item.2, s.db.store.committed.totalCount item⟩ : BatchCountResult)) :=
    exec_attempt hvalue
  exact ⟨f, exec_reply hcount⟩

omit [DecidableEq ι] in
/-- A count that has been written is there and agrees with the tables. -/
theorem counted_of_written {written : List CacheKey} {f : Flights ι} {k : Request}
    {item : Item} (keys : List CacheKey) (hwritten : countCacheKey item ∈ written) (up : Bool) :
    (∃ text, (countsRead s up keys written f).cache.l1 (countCacheKey item) = some text ∧
      k.Agrees C s.db.store.committed (countCacheKey item) text) ∧
    (up = true →
      ∃ text, (countsRead s up keys written f).cache.redis (countCacheKey item) = some text ∧
        k.Agrees C s.db.store.committed (countCacheKey item) text) := by
  have hagrees : k.Agrees C s.db.store.committed (countCacheKey item)
      (countTexts s.db.store.committed (countCacheKey item)) := by
    have hparse : I64.parse (countTexts s.db.store.committed (countCacheKey item)) =
        some (s.db.store.committed.totalCount item) := I64.parse_toString _
    cases k <;> exact hparse
  refine ⟨⟨_, if_pos hwritten, hagrees⟩, fun hup => ⟨_, if_pos ⟨hup, hwritten⟩, hagrees⟩⟩

theorem heals_getCount {item : Item} (hregistered : Registered s.flights)
    (hfound : s.cache.found q.up (countCacheKey item) = some text)
    (htext : Undecodable C (countCacheKey item) text) :
    Heals cfg C q i s (.getCount item) (countCacheKey item) ↔
      s.flights.pending (countCacheKey item) = none := by
  have hmiss : (s.cache.found q.up (countCacheKey item)).bind I64.parse = none := by
    rw [hfound]
    exact htext
  have hmiss' : ((s.without (countCacheKey item)).cache.found q.up (countCacheKey item)).bind
      I64.parse = none := by
    rw [found_without, if_pos rfl]
    rfl
  obtain ⟨f, hrun⟩ := exec_getCount (C := C) (i := i) hregistered hmiss
  obtain ⟨f', hrun'⟩ := exec_getCount (C := C) (i := i)
    (s := s.without (countCacheKey item)) hregistered hmiss'
  constructor
  · intro hheals
    by_contra hpending
    rw [if_neg hpending] at hrun
    refine not_heals hrun ?_ htext hheals
    unfold countsRead
    rw [Cache.CacheState.stored_nil, Cache.CacheState.loaded_l1, if_pos List.mem_cons_self]
    exact hfound
  · intro hpending
    rw [if_pos hpending] at hrun
    obtain ⟨hl1, hredis⟩ := counted_of_written (C := C) (s := s) (k := .getCount item) (f := f)
      [countCacheKey item] List.mem_cons_self q.up
    exact ⟨_, _, _, hrun, hrun', hl1, hredis⟩

theorem heals_batchCounts {items : List Item} (hregistered : Registered s.flights)
    (hlength : items.length ≤ 100) (hkey : key ∈ items.map countCacheKey)
    (hfound : s.cache.found q.up key = some text) (htext : Undecodable C key text) :
    Heals cfg C q i s (.batchCounts items) key := by
  obtain ⟨item, hitem, rfl⟩ := List.mem_map.mp hkey
  have hparse : I64.parse text = none := htext
  have hsame : ∀ item', countFound (s.without (countCacheKey item)) q.up item' =
      countFound s q.up item' := by
    intro item'
    unfold countFound
    rw [found_without]
    split_ifs with he
    · rw [he, hfound, Option.bind_some, hparse]
      rfl
    · rfl
  obtain ⟨f, written, hrun, hwritten⟩ := exec_batchCounts (q := q) (i := i)
    hregistered hlength
  obtain ⟨f', written', hrun', -⟩ := exec_batchCounts (q := q) (i := i)
    (s := s.without (countCacheKey item)) hregistered hlength
  have hmem : countCacheKey item ∈ written := by
    refine hwritten item hitem ?_
    rw [hfound]
    exact hparse
  obtain ⟨hl1, hredis⟩ := counted_of_written (C := C) (s := s) (k := .batchCounts items) (f := f)
    (items.map countCacheKey) hmem q.up
  simp only [hsame] at hrun'
  exact ⟨_, _, _, exec_reply hrun, exec_reply hrun', hl1, hredis⟩

theorem heals_firstPage (hC : C.RoundTrips) {userId : Uuid} {contentTypeFilter : Option String}
    {limit : I64} (hfound : s.cache.found q.up (.ul userId (contentTypeFilter.getD "_")) = some text)
    (htext : Undecodable C (.ul userId (contentTypeFilter.getD "_")) text) :
    Heals cfg C q i s (.getUserLikes userId contentTypeFilter none limit)
        (.ul userId (contentTypeFilter.getD "_")) ↔
      (C.pageToJson (firstRows s.db.store.committed userId contentTypeFilter)).isSome = true := by
  have hrun := exec_reply (f := Reply.page) (exec_firstPage cfg (clampLimit limit) (C := C) (q := q)
    (i := i) (s := s) (by rw [hfound]; exact htext))
  have hrun' := exec_reply (f := Reply.page) (exec_firstPage cfg (clampLimit limit) (C := C) (q := q)
    (i := i) (s := s.without (.ul userId (contentTypeFilter.getD "_")))
    (by rw [found_without, if_pos rfl]; rfl))
  cases hjson : C.pageToJson (firstRows s.db.store.committed userId contentTypeFilter) with
  | none =>
    refine iff_of_false (not_heals hrun ?_ htext) (by simp)
    rw [hjson]
    show (s.cache.loaded q.up [_]).l1 _ = _
    rw [Cache.CacheState.loaded_l1, if_pos List.mem_cons_self]
    exact hfound
  | some json =>
    have hpage := hC.page _ _ hjson
    refine iff_of_true ⟨_, _, _, hrun, hrun', ⟨json, ?_, hpage⟩, fun hup => ⟨json, ?_, hpage⟩⟩ rfl
    · rw [hjson]
      exact if_pos List.mem_cons_self
    · rw [hjson]
      exact if_pos ⟨hup, List.mem_cons_self⟩

/-- A status reader takes the text for a status and leaves it. -/
theorem not_heals_status (hC : C.RoundTrips) {userId : Uuid} {item : Item}
    (hfound : s.cache.found q.up (statusCacheKey userId item) = some text)
    (htext : Undecodable C (statusCacheKey userId item) text) :
    ¬ Heals cfg C q i s (.getStatus userId item) (statusCacheKey userId item) := by
  refine not_heals (exec_reply (exec_getStatus hC item)) ?_ htext
  show (if _ then some (Option.getD _ _) else _) = _
  rw [if_pos (by simp), hfound, Option.getD_some]

theorem not_heals_statuses (hC : C.RoundTrips) {userId : Uuid} {items : List Item}
    (hunique : ∀ key, (s.db.store.committed.likes.filter fun r => r.key = key).length ≤ 1)
    (hlength : items.length ≤ 100) (hkey : key ∈ items.map (statusCacheKey userId))
    (hfound : s.cache.found q.up key = some text) (htext : Undecodable C key text) :
    ¬ Heals cfg C q i s (.batchStatuses userId items) key := by
  refine not_heals (exec_reply (exec_batchStatuses hC hlength hunique)) ?_ htext
  show (if _ then some (Option.getD _ _) else _) = _
  rw [if_pos hkey, hfound, Option.getD_some]

end Heals

/-- A request that meets a text which the reader of the entry rejects answers as if the key
    were absent, and leaves the key with a text that agrees with the tables, if and only if it
    is a batch of counts, or a count that is not being fetched, or a first page that has a JSON
    text. -/
theorem heals_iff (cfg : Config) (C : Codec) (hC : C.RoundTrips) (q : Alone) (i : ι) (s : World ι)
    (hregistered : Registered s.flights)
    (hunique : ∀ key, (s.db.store.committed.likes.filter fun r => r.key = key).length ≤ 1)
    (k : Request) (key : CacheKey) (hkey : key ∈ k.lookups) (text : String)
    (hfound : s.cache.found q.up key = some text) (htext : Undecodable C key text) :
    Heals cfg C q i s k key ↔ k.Mends C s := by
  cases k with
  | mutation m => cases hkey
  | getCount item =>
    obtain rfl := List.mem_singleton.mp hkey
    exact heals_getCount hregistered hfound htext
  | batchCounts items =>
    simp only [Request.lookups] at hkey
    split_ifs at hkey with hlength
    · exact iff_of_true (heals_batchCounts hregistered hlength hkey hfound htext) trivial
    · cases hkey
  | getStatus userId item =>
    obtain rfl := List.mem_singleton.mp hkey
    exact iff_of_false (not_heals_status hC hfound htext) id
  | batchStatuses userId items =>
    simp only [Request.lookups] at hkey
    split_ifs at hkey with hlength
    · exact iff_of_false (not_heals_statuses hC hunique hlength hkey hfound htext) id
    · cases hkey
  | getUserLikes userId contentTypeFilter cursor limit =>
    cases cursor with
    | none =>
      obtain rfl := List.mem_singleton.mp hkey
      exact heals_firstPage hC hfound htext
    | some cursor => cases hkey

/-- User 1 likes post 7; what Redis holds of the status and the count of the post is garbage. -/
def corruptWorld : World ℕ :=
  { World.new with
    db := ⟨.ofTables ⟨[⟨1, 1, "post", 7, .epoch⟩],
      fun item => if item = ("post", 7) then some 1 else none⟩, fun _ => .epoch, 2⟩
    cache := ⟨fun _ => none, fun _ => some "garbage"⟩ }

/-- `heals_iff` for a batch that counts the post twice. -/
theorem heals_iff_corruptWorld :
    Heals Config.default Codec.plain ⟨true, .epoch, [], []⟩ 0 corruptWorld
      (.batchCounts [("post", 7), ("post", 7)]) (.lc "post" 7) ↔ True := by
  have hregistered : Registered corruptWorld.flights := registered_empty
  have hunique : ∀ key,
      (corruptWorld.db.store.committed.likes.filter fun r => r.key = key).length ≤ 1 :=
    fun key => List.length_filter_le _ _
  have hrejected : I64.parse "garbage" = none := by decide
  exact heals_iff Config.default Codec.plain Codec.plain_roundTrips ⟨true, .epoch, [], []⟩ 0
    corruptWorld hregistered hunique (.batchCounts [("post", 7), ("post", 7)]) (.lc "post" 7)
    (by decide) "garbage" rfl hrejected

/-- The status of the liked post is read as "not liked", and the garbage stays; for an absent
    key the answer is the like. -/
theorem garbageStatus :
    (((Request.getStatus 1 ("post", 7)).prog Config.default Codec.plain).exec
      (quietly Config.default ⟨true, .epoch, [], []⟩ 0) corruptWorld).map (fun r =>
        (r.1.cache.l1 (.ls 1 "post" 7), r.2)) =
      some (some "garbage", .ok (.status ⟨false, none⟩)) ∧
    (((Request.getStatus 1 ("post", 7)).prog Config.default Codec.plain).exec
      (quietly Config.default ⟨true, .epoch, [], []⟩ 0)
      (corruptWorld.without (.ls 1 "post" 7))).map Prod.snd =
      some (.ok (.status ⟨true, some .epoch⟩)) ∧
    Undecodable Codec.plain (.ls 1 "post" 7) "garbage" ∧
    ¬ Heals Config.default Codec.plain ⟨true, .epoch, [], []⟩ 0 corruptWorld
      (.getStatus 1 ("post", 7)) (.ls 1 "post" 7) := by
  have hrejected : Undecodable Codec.plain (.ls 1 "post" 7) "garbage" :=
    ⟨by decide, by decide +kernel⟩
  exact ⟨by decide +kernel, by decide +kernel, hrejected,
    not_heals_status Codec.plain_roundTrips rfl hrejected⟩

end SocialApi.Services
