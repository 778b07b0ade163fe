import SocialApi.Services.CountSources
import SocialApi.Services.Sequential
import SocialApi.Services.TableTexts

/-!
# Where the texts come from

Every text that a call stores under the key of a count, a status or a page is the last one that
the call was told for the key: by a statement, by the commit of its own change, or by Redis. Here
a call remembers (`TextLog`) its ledger and the last text for each key.

* `rowsTell_tableText`: what a statement tells of a key is the text of the committed tables.
* `texts`: the protocol. The one exception is a first page filtered by the content type `_`, which
  is stored under the key of the unfiltered pages.
-/

namespace SocialApi.Services

open SocialApi.Concurrent SocialApi.Postgres SocialApi.Repositories

/-! ## What an answer tells -/

/-- The text, if it is this key. -/
def textAt (key : CacheKey) (text : Option String) (k : CacheKey) : Option String :=
  if k = key then text else none

@[simp] theorem textAt_self (key : CacheKey) (text : Option String) : textAt key text key = text :=
  if_pos rfl

theorem of_textAt {key k : CacheKey} {text : Option String} {t : String}
    (h : textAt key text k = some t) : k = key ∧ text = some t := by
  unfold textAt at h
  split_ifs at h with hk
  exact ⟨hk, h⟩

/-- The text of a key that the rows returned by a statement tell. -/
def rowsTell (C : Codec) : (q : DbOp) → q.Rows → CacheKey → Option String
  | .countRow item, row => textAt (countCacheKey item) (some (row.getD 0).toString)
  | .selectCount item, row => textAt (countCacheKey item) (some (row.getD 0).toString)
  | .selectExisting userId item, found => fun key => found.bind fun (row, total) =>
    (textAt (countCacheKey item) (some total.toString) key).or
      (textAt (statusCacheKey userId item) (some (statusText C (some row.createdAt))) key)
  | .deleteLike userId item, n =>
    textAt (statusCacheKey userId item) (if n = 0 then some (statusText C none) else none)
  | .batchGetCounts items, rows => fun key => items.findSome? fun item =>
    textAt (countCacheKey item) (some ((collectRows rows item).getD 0).toString) key
  | .getLikeStatus userId item, likedAt =>
    textAt (statusCacheKey userId item) (some (statusText C likedAt))
  | .batchGetStatuses userId items, rows => fun key => items.findSome? fun item =>
    textAt (statusCacheKey userId item) (some (statusText C (collectRows rows item).join)) key
  | .getUserLikes userId contentTypeFilter none fetchLimit, rows =>
    textAt (.ul userId (contentTypeFilter.getD "_"))
      (if fetchLimit = 101 ∧ contentTypeFilter ≠ some "_" then
        C.pageToJson ⟨rows.take (min 100 rows.length), rows.length > 100⟩ else none)
  | _, _ => fun _ => none

/-- The text of a key that an answer tells. -/
def tells (C : Codec) : (o : SvcOp) → o.Ans → CacheKey → Option String
  | .db q, .ok rows => rowsTell C q rows
  | .cache (.redisGet key), text => textAt key text
  | .cache (.redisMget keys), texts => fun key =>
    texts.bind fun texts => ((keys.zip texts).find? fun e => e.1 = key).bind Prod.snd
  | _, _ => fun _ => none

/-- What an `MGET` tells, whose answer has the text of each key. -/
theorem tells_mget {C : Codec} {keys : List CacheKey} (f : CacheKey → Option String)
    {key : CacheKey} (hkey : key ∈ keys) :
    tells C (.cache (.redisMget keys)) (some (keys.map f)) key = f key := by
  show ((keys.zip (keys.map f)).find? fun e => e.1 = key).bind Prod.snd = f key
  induction keys with
  | nil => cases hkey
  | cons k keys ih =>
    rw [List.map_cons, List.zip_cons_cons, List.find?_cons]
    by_cases hk : k = key
    · rw [decide_eq_true hk, ← hk]
      rfl
    · rw [decide_eq_false hk]
      exact ih ((List.mem_cons.mp hkey).resolve_left (Ne.symm hk))

/-- What the rows of a batch tell of one of its items. -/
theorem findSome?_textAt {k : Item → CacheKey} (hk : Function.Injective k) (t : Item → String)
    {items : List Item} {item : Item} (hitem : item ∈ items) :
    items.findSome? (fun it => textAt (k it) (some (t it)) (k item)) = some (t item) := by
  induction items with
  | nil => cases hitem
  | cons it items ih =>
    rw [List.findSome?_cons]
    by_cases he : it = item
    · rw [he, textAt_self]
    · have hnone : textAt (k it) (some (t it)) (k item) = none :=
        if_neg fun heq => he (hk heq).symm
      rw [hnone]
      exact ih ((List.mem_cons.mp hitem).resolve_left (Ne.symm he))

theorem of_findSome?_textAt {k : Item → CacheKey} {t : Item → String} {items : List Item}
    {key : CacheKey} {text : String}
    (h : items.findSome? (fun it => textAt (k it) (some (t it)) key) = some text) :
    ∃ item ∈ items, key = k item ∧ t item = text := by
  obtain ⟨item, hitem, htext⟩ := List.exists_of_findSome?_eq_some h
  obtain ⟨hkey, htext⟩ := of_textAt htext
  exact ⟨item, hitem, hkey, Option.some.inj htext⟩

theorem statusCacheKey_injective (userId : Uuid) : Function.Injective (statusCacheKey userId) := by
  rintro ⟨type, id⟩ ⟨type', id'⟩ h
  cases h
  rfl

/-! ### It is what the tables give -/

/-- The statements of a transaction that tell something of what has been there before. -/
def Looks : DbOp → Prop
  | .selectCount _ => True
  | .selectExisting _ _ => True
  | .deleteLike _ _ => True
  | _ => False

/-- `DELETE` finds nothing only if there is nothing. -/
theorem noRow_of_deleteLike {ι : Type} [DecidableEq ι] {s s' : DbState ι} {i : ι} {now : DateTime}
    {order : List ℕ} {userId : Uuid} {item : Item}
    (h : runStatement s i now order (.deleteLike userId item) = some (s', .ok 0))
    (hview : s.view i = s.store.committed) :
    s.store.committed.likes.filter (fun r => r.key = (userId, item)) = [] := by
  simp only [runStatement, hview] at h
  cases hrows : s.store.committed.likes.filter fun r => r.key = (userId, item) with
  | nil => rfl
  | cons row rows =>
    rw [hrows] at h
    dsimp only at h
    split_ifs at h
    cases Except.ok.inj (Prod.mk.inj (Option.some.inj h)).2

/-- The status that the batch query returns for an item. -/
theorem statusRows {ι : Type} [DecidableEq ι] {s s' : DbState ι} {i : ι} {now : DateTime}
    {order : List ℕ} {userId : Uuid} {items : List Item} {rows : List (Item × Option DateTime)}
    (hunique : ∀ key, (s.store.committed.likes.filter fun r => r.key = key).length ≤ 1)
    (h : runStatement s i now order (.batchGetStatuses userId items) = some (s', .ok rows))
    {item : Item} (hitem : item ∈ items) :
    (collectRows rows item).join =
      (s.store.committed.find (userId, item)).map LikesRow.createdAt := by
  let status := fun item => (s.store.committed.find (userId, item)).map LikesRow.createdAt
  let q : Alone := ⟨true, now, order, []⟩
  let w : World ι := { World.new with db := s }
  have hrows : runStatement w.db i q.now q.order (.batchGetStatuses userId items) = _ :=
    runStatement_statuses hunique items
  rw [show runStatement s i now order _ = _ from hrows] at h
  obtain rfl := Except.ok.inj (Prod.mk.inj (Option.some.inj h)).2
  have hperm := shuffle_perm order (items.map fun item => (item, status item))
  have hrow : collectRows (shuffle order (items.map fun item => (item, status item))) item =
      some (status item) := by
    refine collectRows_eq (fun row hrow => ?_) ?_
    · obtain ⟨item', -, rfl⟩ := List.mem_map.mp (hperm.mem_iff.mp hrow)
      rfl
    · rw [(hperm.map Prod.fst).mem_iff, List.map_map]
      exact List.mem_map.mpr ⟨item, hitem, rfl⟩
  exact congrArg Option.join hrow

/-- A statement tells the texts of the committed tables, if its transaction has not changed them. -/
theorem rowsTell_tableText {ι : Type} [DecidableEq ι] {C : Codec} {s s' : DbState ι} {i : ι}
    {q : DbOp} {x : DbChoice} {rows : q.Rows}
    (h : Postgres.handle s i q x = some (s', .ok rows))
    (hview : Looks q → s.view i = s.store.committed) (hconsistent : Consistent s.store.committed)
    {key : CacheKey} {text : String} (htells : rowsTell C q rows key = some text) :
    tableText C s.store.committed key = some text := by
  obtain ⟨now, order, hrun⟩ : ∃ now order, runStatement s i now order q = some (s', .ok rows) := by
    cases x with
    | fail message => cases h
    | run now order => exact ⟨now, order, h⟩
  cases q with
  | countRow item =>
    cases hrun
    obtain ⟨rfl, htext⟩ := of_textAt htells
    exact htext
  | selectCount item =>
    cases hrun
    obtain ⟨rfl, htext⟩ := of_textAt htells
    rw [hview trivial] at htext
    exact htext
  | selectExisting userId item =>
    simp only [runStatement, Option.some.injEq, Prod.mk.injEq] at hrun
    rw [← Except.ok.inj hrun.2, hview trivial] at htells
    cases hfind : s.store.committed.find (userId, item) with
    | none => rw [hfind] at htells; cases htells
    | some row =>
      rw [hfind] at htells
      rcases Option.or_eq_some_iff.mp htells with hcount | ⟨-, hstatus⟩
      · obtain ⟨rfl, htext⟩ := of_textAt hcount
        exact htext
      · obtain ⟨rfl, htext⟩ := of_textAt hstatus
        show some (statusText C ((s.store.committed.find (userId, item)).map _)) = _
        rw [hfind]
        exact htext
  | deleteLike userId item =>
    obtain ⟨rfl, htext⟩ := of_textAt htells
    split_ifs at htext with hn
    subst hn
    show some (statusText C ((s.store.committed.find (userId, item)).map _)) = _
    unfold Tables.find
    rw [← List.head?_filter, noRow_of_deleteLike hrun (hview trivial)]
    exact htext
  | batchGetCounts items =>
    obtain ⟨item, hitem, rfl, htext⟩ := of_findSome?_textAt htells
    have hcount : CountIn (.batchGetCounts items) (.ok rows) item ((collectRows rows item).getD 0) :=
      ⟨hitem, rfl⟩
    have htotal := countIn_total h (fun hq => by simp at hq) hcount
    rw [← htext, htotal]
    rfl
  | getLikeStatus userId item =>
    cases hrun
    obtain ⟨rfl, htext⟩ := of_textAt htells
    exact htext
  | batchGetStatuses userId items =>
    obtain ⟨item, hitem, rfl, htext⟩ := of_findSome?_textAt htells
    rw [← htext, statusRows hconsistent.unique hrun hitem]
    rfl
  | getUserLikes userId contentTypeFilter cursor fetchLimit =>
    cases cursor with
    | some cursor => cases htells
    | none =>
      cases hrun
      obtain ⟨rfl, htext⟩ := of_textAt htells
      split_ifs at htext with hpage
      obtain ⟨rfl, hfilter⟩ := hpage
      show C.pageToJson (firstRows _ userId (pageFilter _)) = _
      rw [pageFilter_of_ne hfilter]
      exact htext
  | _ => cases htells

/-- The cache tells what Redis holds. -/
theorem lookup_of_tells {ι : Type} [DecidableEq ι] {cfg : Config} {C : Codec} {s s' : World ι}
    {i : ι} {o : Cache.Op} {x : SvcChoice} {r : o.Ans}
    (h : handle cfg s i (.cache o) x = some (s', r)) {key : CacheKey} {text : String}
    (htells : tells C (.cache o) r key = some text) :
    s.cache.lookup .redis key = some text := by
  obtain ⟨y, cache', -, hcache, -⟩ := handle_cache h
  refine Cache.handle_shows hcache ?_
  cases o with
  | redisGet key' =>
    obtain ⟨rfl, rfl⟩ := of_textAt htells
    exact ⟨rfl, rfl, rfl⟩
  | redisMget keys =>
    obtain ⟨vals, rfl, hfound⟩ := Option.bind_eq_some_iff.mp htells
    obtain ⟨⟨key', val⟩, hfind, hval⟩ := Option.bind_eq_some_iff.mp hfound
    obtain rfl : val = some text := hval
    obtain rfl : key' = key := by simpa using List.find?_some hfind
    exact ⟨rfl, vals, rfl, List.mem_of_find?_eq_some hfind⟩
  | _ => cases htells

/-! ## The log -/

/-- What a call remembers: its ledger, the keys under which it stores something else, and the last
    text that it was told for a key. -/
structure TextLog where
  ledger : Ledger
  mistakes : CacheKey → Prop
  seen : CacheKey → Option String

/-- The texts of a change. -/
def Change.texts (C : Codec) (ch : Change) (key : CacheKey) : Option String :=
  (textAt (countCacheKey ch.key.2) (some ch.count.toString) key).or
    (textAt (statusCacheKey ch.key.1 ch.key.2) (some (statusText C ch.likedAt)) key)

/-- The keys under which a request stores something else than their texts: the first page of a
    content type `_` goes under the key of the unfiltered pages. -/
def Request.Mistakes : Request → CacheKey → Prop
  | .getUserLikes userId (some "_") none _, key => key = .ul userId "_"
  | _, _ => False

theorem Request.Mistakes.eq {k : Request} {key : CacheKey} (h : k.Mistakes key) :
    ∃ userId limit, k = .getUserLikes userId (some "_") none limit := by
  unfold Request.Mistakes at h
  split at h
  · exact ⟨_, _, rfl⟩
  · exact h.elim

namespace TextLog

/-- A call that has just started. -/
def fresh (k : Request) : TextLog := ⟨.fresh, k.Mistakes, fun _ => none⟩

/-- Which operations a call performs: it stores what it was told last. -/
def asks (g : TextLog) : SvcOp → Prop
  | .db q => g.ledger.phase.asks q ∧ g.ledger.change = none
  | .cache o => ∀ layer key text, o.store = some (layer, key, text) →
    g.seen key = some text ∨ g.mistakes key
  | _ => True

/-- The last texts after an answer. -/
def seenAfter (C : Codec) (g : TextLog) : (o : SvcOp) → o.Ans → CacheKey → Option String
  | .db q, r => fun key => ((g.ledger.changeAfter q r).bind fun ch => ch.texts C key).or
    ((tells C (.db q) r key).or (g.seen key))
  | .cache o, r => fun key => (tells C (.cache o) r key).or (g.seen key)
  | _, _ => g.seen

/-- The log after an answer. -/
def next (C : Codec) (g : TextLog) (o : SvcOp) (r : o.Ans) : TextLog :=
  ⟨g.ledger.next C o r, g.mistakes, g.seenAfter C o r⟩

/-- What the answer to an operation is sure to be: `MGET` has one value for a key. -/
def Fits (g : TextLog) : (o : SvcOp) → o.Ans → Prop
  | .cache (.redisMget keys), r =>
    ∀ texts, r = some texts → ∃ f : CacheKey → Option String, texts = keys.map f
  | o, r => g.ledger.Fits o r

end TextLog

/-- Where the texts may come from, as a protocol. -/
def texts (C : Codec) : Protocol SvcOp SvcOp.Ans TextLog where
  asks := TextLog.asks
  answers g o r g' := g' = g.next C o r ∧ g.Fits o r

/-- A call is over outside its transaction. -/
def Request.Over (_ : Request) (g : TextLog) (_ : Except AppError Reply) : Prop :=
  g.ledger.phase = .outside

end SocialApi.Services
