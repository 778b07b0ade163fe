import SocialApi.Services.RightEntries

/-!
# Readers on their own

A reader that has the service for itself, over a cache whose entries are right, answers with what
the tables give and leaves the entries right, whether or not a statement of it fails.

* `own_getStatus`, `own_batchStatuses`: the statuses are those of the user's rows.
* `own_getCount`, `own_batchCounts`: the counts are those of the items' rows.
* `own_firstPage`: the first page is the one that an uncached keyset query with the same limit
  gives (`keysetPage`), and later pages are such queries.
-/

namespace SocialApi.Services

open SocialApi.Concurrent SocialApi.Postgres SocialApi.Repositories SocialApi.PendingFetches

variable {ι : Type}

/-- The database is `d`, `pending_fetches` is in order, and every entry is right. -/
structure Intact (C : Codec) (d : DbState ι) (s : World ι) : Prop where
  db : s.db = d
  flights : Registered s.flights
  cache : CacheRight C d.store.committed (fun _ => False) s.cache

section Reads

variable {cfg : Config} {C : Codec} {i : ι} {d : DbState ι} {s : World ι} {α : Type}

/-! ## The cache -/

theorem Intact.over (h : Intact C d s) {c : Cache.CacheState}
    (hc : CacheRight C d.store.committed (fun _ => False) c) : Intact C d { s with cache := c } :=
  ⟨h.db, h.flights, hc⟩

variable [DecidableEq ι]

theorem own_get (h : Intact C d s) (key : CacheKey) :
    (onItsOwn cfg i).Obeys (fun s' value => Intact C d s' ∧
      ∀ text, value = some text → TextRight C d.store.committed key text) s
      (cache (Cache.get key)) := by
  refine own_cache (Cache.get_fixed key) (Cache.exec_get true s.cache key) ⟨?_, ?_⟩
  · exact h.over (h.cache.loaded [key])
  · exact fun text htext => h.cache.found id htext

theorem own_mget (h : Intact C d s) (keys : List CacheKey) :
    (onItsOwn cfg i).Obeys (fun s' values => Intact C d s' ∧ ∃ found : CacheKey → Option String,
      values = keys.map found ∧
      ∀ key text, found key = some text → TextRight C d.store.committed key text) s
      (cache (Cache.mget keys)) := by
  refine own_cache (Cache.mget_fixed keys) (Cache.exec_mget true s.cache keys) ⟨?_, ?_⟩
  · exact h.over (h.cache.loaded keys)
  · exact ⟨s.cache.found true, rfl, fun key text htext => h.cache.found id htext⟩

variable (cfg i) in
theorem own_setMany (h : Intact C d s) (texts : CacheKey → String) (ttlSecs : ℕ)
    (keys : List CacheKey) (hkeys : ∀ key ∈ keys, TextRight C d.store.committed key (texts key)) :
    (onItsOwn cfg i).Obeys (fun s' _ => Intact C d s') s
      (cache (Cache.setMany (keys.map fun key => (key, texts key, ttlSecs)))) := by
  refine own_cache (Cache.setMany_fixed _) (Cache.exec_setMany true s.cache texts ttlSecs keys) ?_
  exact h.over ((h.cache.stored texts keys hkeys).mono fun _ hK => hK.1)

variable (cfg i) in
theorem own_set (h : Intact C d s) (key : CacheKey) (text : String) (ttlSecs : ℕ)
    (hright : TextRight C d.store.committed key text) :
    (onItsOwn cfg i).Obeys (fun s' _ => Intact C d s') s (cache (Cache.set key text ttlSecs)) := by
  refine own_setMany cfg i h (fun _ => text) ttlSecs [key] fun key' hkey' => ?_
  rw [List.mem_singleton.mp hkey']
  exact hright

variable (cfg i) in
/-- A statement on the pool. -/
theorem own_read (h : Intact C d s) (q : DbOp) (hq : ReadsOnly q) (T : q.Rows → Prop)
    (hrows : ∀ now order rows, runStatement d i now order q = some (d, .ok rows) → T rows) :
    (onItsOwn cfg i).Obeys (fun s' result => Intact C d s' ∧ ∀ rows, result = .ok rows → T rows) s
      (db (Prog.perform q)) := by
  refine own_db hq (fun now order rows hrun => ⟨h, ?_⟩) fun e => ⟨⟨h.db, h.flights, h.cache⟩, ?_⟩
  · rintro rows' hrows'
    rw [h.db] at hrun
    rw [← Except.ok.inj hrows']
    exact hrows now order rows hrun
  · intro rows hrows'
    cases hrows'

/-! ## Statuses -/

/-- The status that the tables give. -/
def statusIn (t : Tables) (userId : Uuid) (item : Item) : LikeStatusResponse :=
  let likedAt := (t.find (userId, item)).map LikesRow.createdAt
  ⟨likedAt.isSome, likedAt⟩

/-- A right text under a status key is read as the status of the tables. -/
theorem parse_of_textRight (hC : C.RoundTrips) {t : Tables} {userId : Uuid} {item : Item}
    {text : String} (h : TextRight C t (statusCacheKey userId item) text) :
    parseStatusCacheValue C text = statusIn t userId item := by
  have htext : statusText C ((t.find (userId, item)).map LikesRow.createdAt) = text :=
    Option.some.inj h
  rw [← htext]
  exact parse_statusText hC _

theorem own_getStatus (hC : C.RoundTrips) (h : Intact C d s) (userId : Uuid) (item : Item) :
    (onItsOwn cfg i).Obeys (fun s' result => Intact C d s' ∧ ∀ status, result = .ok status →
      status = statusIn d.store.committed userId item) s (getStatus cfg C userId item) := by
  refine (own_get h (statusCacheKey userId item)).bind fun s₁ value hvalue => ?_
  obtain ⟨h₁, hright⟩ := hvalue
  cases value with
  | some text =>
    refine ⟨h₁, fun status hstatus => ?_⟩
    rw [← Except.ok.inj hstatus]
    exact parse_of_textRight hC (hright text rfl)
  | none =>
    have hdb := own_read cfg i h₁ (.getLikeStatus userId item) trivial
      (fun likedAt => likedAt = (d.store.committed.find (userId, item)).map LikesRow.createdAt)
      fun now order rows hrows => (Except.ok.inj (Prod.mk.inj (Option.some.inj hrows)).2).symm
    refine own_attempt hdb (fun s₂ likedAt hread => ?_) fun s₂ e hread => ⟨hread.1, ?_⟩
    · obtain ⟨h₂, hlikedAt⟩ := hread
      obtain rfl := hlikedAt likedAt rfl
      refine (own_set cfg i h₂ _ _ _ (textRight_of_tableText rfl)).bind fun s₃ _ h₃ =>
        ⟨h₃, fun status hst => ?_⟩
      exact (Except.ok.inj hst).symm
    · intro status hstatus
      cases hstatus

theorem own_batchStatuses (hC : C.RoundTrips) (h : Intact C d s)
    (hunique : ∀ key, (d.store.committed.likes.filter fun r => r.key = key).length ≤ 1)
    (userId : Uuid) (items : List Item) :
    (onItsOwn cfg i).Obeys (fun s' result => Intact C d s' ∧ ∀ statuses, result = .ok statuses →
      statuses = items.map fun item => statusResult item (statusIn d.store.committed userId item)) s
      (batchStatuses cfg C userId items) := by
  let status := fun item => (d.store.committed.find (userId, item)).map LikesRow.createdAt
  unfold batchStatuses
  split_ifs with hlength
  · exact ⟨h, fun statuses hstatuses => by cases hstatuses⟩
  refine (own_mget h (items.map (statusCacheKey userId))).bind fun s₁ values hvalues => ?_
  obtain ⟨h₁, foundAt, rfl, hright⟩ := hvalues
  let found := fun item => foundAt (statusCacheKey userId item)
  let missing := items.filter fun item => found item = none
  have hsplit : splitStatuses C ((items.map (statusCacheKey userId)).map foundAt) 0 items [] [] =
      (items.map (splitResult C found), missingFrom found 0 items) := by
    rw [List.map_map]
    exact splitStatuses_eq found [] items [] []
  -- what has been found is right
  have hresult : ∀ item value, found item = some value →
      statusResult item (parseStatusCacheValue C value) =
        statusResult item (statusIn d.store.committed userId item) := by
    intro item value hfound
    exact congrArg (statusResult item) (parse_of_textRight hC (hright _ _ hfound))
  dsimp only
  rw [hsplit]
  dsimp only
  split_ifs with hnone
  · refine ⟨h₁, fun statuses hstatuses => ?_⟩
    rw [← Except.ok.inj hstatuses]
    refine List.map_congr_left fun item hitem => ?_
    have hfound : found item ≠ none := by
      intro he
      have hmem : item ∈ missing := List.mem_filter.mpr ⟨hitem, decide_eq_true he⟩
      rw [show missing = [] from missingFrom_eq_nil.mp hnone] at hmem
      cases hmem
    unfold splitResult
    cases hvalue : found item with
    | some value => exact hresult item value hvalue
    | none => exact absurd hvalue hfound
  · have hmissing : missing ≠ [] := fun he => hnone (missingFrom_eq_nil.mpr he)
    have hitems : (missingFrom found 0 items).filterMap (fun idx => items[idx]?) = missing :=
      filterMap_missingFrom found [] items
    have hdb := own_read cfg i h₁ (.batchGetStatuses userId missing) trivial
      (fun rows => ∃ order, rows = shuffle order (missing.map fun item => (item, status item)))
      fun now order rows hrows => by
        let q : Alone := ⟨true, now, order, []⟩
        let s₀ : World ι := { s with db := d }
        have hrun : runStatement s₀.db i q.now q.order (.batchGetStatuses userId missing) = _ :=
          runStatement_statuses hunique missing
        rw [show runStatement d i now order _ = _ from hrun] at hrows
        exact ⟨order, (Except.ok.inj (Prod.mk.inj (Option.some.inj hrows)).2).symm⟩
    rw [hitems]
    unfold Repositories.batchGetStatuses
    rw [if_neg hmissing]
    refine own_attempt hdb (fun s₂ rows hread => ?_) fun s₂ e hread => ⟨hread.1, ?_⟩
    · obtain ⟨h₂, hrows⟩ := hread
      obtain ⟨order, rfl⟩ := hrows rows rfl
      have hmap : ∀ item ∈ items, found item = none →
          collectRows (shuffle order (missing.map fun item => (item, status item))) item =
            some (status item) := by
        intro item hitem hfound
        have hperm := shuffle_perm order (missing.map fun item => (item, status item))
        refine collectRows_eq (fun row hrow => ?_) ?_
        · obtain ⟨item', -, rfl⟩ := List.mem_map.mp (hperm.mem_iff.mp hrow)
          rfl
        · rw [(hperm.map Prod.fst).mem_iff, List.map_map]
          exact List.mem_map.mpr ⟨item, List.mem_filter.mpr ⟨hitem, decide_eq_true hfound⟩, rfl⟩
      have hfill : fillStatuses cfg C userId items
          (collectRows (shuffle order (missing.map fun item => (item, status item))))
          (missingFrom found 0 items) (items.map (splitResult C found)) [] = (_, _) :=
        fillStatuses_eq found [] items hmap [] rfl []
      rw [hfill]
      have hentries : (missing.map fun item => (statusCacheKey userId item,
          statusText C (status item), cfg.cacheTtlLikeStatusSecs)) =
          (missing.map (statusCacheKey userId)).map fun key =>
            (key, statusTexts C d.store.committed userId key, cfg.cacheTtlLikeStatusSecs) := by
        rw [List.map_map]
        rfl
      have hset := own_setMany cfg i h₂ (statusTexts C d.store.committed userId)
        cfg.cacheTtlLikeStatusSecs (missing.map (statusCacheKey userId)) ?_
      · rw [← hentries] at hset
        refine hset.bind fun s₃ _ h₃ => ⟨h₃, fun statuses hstatuses => ?_⟩
        rw [← Except.ok.inj hstatuses]
        refine List.map_congr_left fun item _ => ?_
        cases hvalue : found item with
        | some value => exact hresult item value hvalue
        | none => rfl
      · intro key hkey
        obtain ⟨item, -, rfl⟩ := List.mem_map.mp hkey
        exact textRight_of_tableText rfl
    · intro statuses hstatuses
      cases hstatuses

end Reads

/-! ## Counts -/

/-- A count sent on the channel is the one of the tables. -/
def Truthful (t : Tables) (f : Flights ι) (id : ChanId) : Prop :=
  ∀ ch count item, f.chans id = some ch → ch.value = some count → countCacheKey item = id.1 →
    count = t.totalCount item

/-- What a reader of counts has seen is what the tables give, on the channels that it follows
    nothing else has been sent since, and the entries are right. -/
structure SeesTables (C : Codec) (d : DbState ι) (s : World ι) (g : CountLog) : Prop where
  intact : Intact C d s
  reads : g.reads = true
  has : ∀ source item count, g.has source item count → count = d.store.committed.totalCount item
  subs : ∀ rx ∈ g.subs, Unserved s.flights rx ∨ Truthful d.store.committed s.flights rx.chan
  ready : ∀ rx ∈ g.ready, Truthful d.store.committed s.flights rx.chan

section Counts

variable {cfg : Config} {C : Codec} {i : ι} {d : DbState ι} {s s' : World ι} {g : CountLog}

/-- What is sent is what the tables give, and nothing else changes a value. -/
theorem truthful_handle [DecidableEq ι] {t : Tables} {f f' : Flights ι} {o : PendingFetches.Op}
    {x : PendingFetches.Choice} {r : o.Ans} (h : PendingFetches.handle f i o x = some (f', r))
    (hsend : ∀ tx count, o = .send tx count → ∀ item, countCacheKey item = tx.1 →
      count = t.totalCount item) :
    (∀ id, Truthful t f id → Truthful t f' id) ∧
      ∀ rx, Unserved f rx → Unserved f' rx ∨ Truthful t f' rx.chan := by
  constructor
  · intro id hid ch' count item hch' hcount hitem
    rcases handle_chan h hch' with ⟨ch, hch, hvalue, -⟩ | hnone | ⟨ch, count', hop, -, hvalue, -⟩
    · exact hid ch count item hch (hvalue.symm.trans hcount) hitem
    · rw [hnone] at hcount
      cases hcount
    · obtain rfl := Option.some.inj (hvalue.symm.trans hcount)
      exact hsend id _ hop item hitem
  · rintro rx ⟨ch, hch, hseen⟩
    cases hch' : f'.chans rx.chan with
    | none =>
      right
      intro ch' count item hsome
      rw [hch'] at hsome
      cases hsome
    | some ch' =>
      rcases handle_chan h hch' with ⟨ch₁, hch₁, -, hversion⟩ | hnone | ⟨-, count', hop, -, hvalue, -⟩
      · obtain rfl := Option.some.inj (hch.symm.trans hch₁)
        exact Or.inl ⟨ch', hch', hversion.trans hseen⟩
      · right
        intro ch₁ count item hsome hcount
        obtain rfl := Option.some.inj (hch'.symm.trans hsome)
        rw [hnone] at hcount
        cases hcount
      · right
        intro ch₁ count item hsome hcount hitem
        obtain rfl := Option.some.inj (hch'.symm.trans hsome)
        obtain rfl := Option.some.inj (hvalue.symm.trans hcount)
        exact hsend _ _ hop item hitem

/-- An operation that leaves flights, database and entries as they are, and after which the call
    has seen nothing else that is false. -/
theorem SeesTables.quiet (h : SeesTables C d s g) {g' : CountLog} (hdb : s'.db = s.db)
    (hflights : s'.flights = s.flights) (hcache : s'.cache = s.cache) (hreads : g'.reads = g.reads)
    (hhas : ∀ source item count, g'.has source item count → g.has source item count ∨
      count = d.store.committed.totalCount item) (hsubs : g'.subs = g.subs)
    (hready : g'.ready = g.ready) : SeesTables C d s' g' where
  intact := ⟨hdb.trans h.intact.db, by rw [hflights]; exact h.intact.flights,
    by rw [hcache]; exact h.intact.cache⟩
  reads := hreads.trans h.reads
  has source item count hg :=
    (hhas source item count hg).elim (fun hold => h.has source item count hold) id
  subs := by
    rw [hsubs, hflights]
    exact h.subs
  ready := by
    rw [hready, hflights]
    exact h.ready

variable [DecidableEq ι]

/-- A statement. -/
theorem SeesTables.statement (h : SeesTables C d s g) {q : DbOp} (hq : ReadsOnly q) {x : SvcChoice}
    {r : q.Ans} (hs : handle cfg s i (.db q) x = some (s', r)) :
    CountLog.Fits (.db q) r ∧ SeesTables C d s' (g.next (.db q) r) := by
  obtain ⟨y, db', rfl, hdb, rfl⟩ := handle_db hs
  have hnext : g.next (.db q) r = g.add .database (CountIn q r) := afterDb_of_readsOnly hq r
  have hview : ((∃ userId item, q = .selectExisting userId item) ∨ ∃ item, q = .selectCount item) →
      s.db.view i = s.db.store.committed := by
    rintro (⟨userId, item, rfl⟩ | ⟨item, rfl⟩)
    · exact hq.elim
    · exact hq.elim
  have hfits : CountLog.Fits (.db q) r := by
    cases q <;> first | exact hq.elim | trivial
  rw [hnext]
  refine ⟨hfits, h.quiet (db_of_readsOnly hq hdb).symm rfl rfl rfl ?_ rfl rfl⟩
  rintro source item count (hold | ⟨-, hin⟩)
  · exact Or.inl hold
  · right
    rw [← h.intact.db]
    exact countIn_total hdb hview hin

/-- An operation on the cache: what is shown is right, and so is what is stored. -/
theorem SeesTables.cacheOp (h : SeesTables C d s g) {o : Cache.Op} (ho : CountOp (.cache o))
    (hasks : g.asks cfg (.cache o)) {x : SvcChoice} {r : o.Ans}
    (hs : handle cfg s i (.cache o) x = some (s', r)) :
    SeesTables C d s' (g.next (.cache o) r) := by
  obtain ⟨y, c', rfl, hc, rfl⟩ := handle_cache hs
  have hstored : ∀ layer key text, o.store = some (layer, key, text) →
      TextRight C d.store.committed key text := by
    intro layer key text hstore
    obtain ⟨item, rfl⟩ := ho _ hstore
    intro count hcount
    cases o with
    | l1Insert key' value =>
      cases hstore
      exact (hasks item count ⟨rfl, hcount⟩).elim (h.has _ _ _) (h.has _ _ _)
    | redisSetEx key' value ttl =>
      cases hstore
      exact h.has _ _ _ ((hasks item rfl).2 count ⟨rfl, hcount⟩)
    | _ => cases hstore
  have hright : CacheRight C d.store.committed (fun _ => False) c' := by
    intro layer key text hkey htext
    rcases Cache.handle_lookup hc layer key with hsame | hnone | ⟨v, hstore, hnew⟩
    · exact h.intact.cache layer key text hkey (hsame.symm.trans htext)
    · rw [hnone] at htext
      cases htext
    · obtain rfl := Option.some.inj (hnew.symm.trans htext)
      exact hstored layer key v hstore
  have hshown : ∀ layer key text item count, o.Shows r layer key text → Tells key text item count →
      count = d.store.committed.totalCount item := by
    rintro layer key text item count hshows ⟨rfl, hparse⟩
    exact h.intact.cache layer _ text id (Cache.handle_shows hc hshows) count hparse
  have hintact : Intact C d { s with cache := c' } := h.intact.over hright
  have hadd : ∀ source (T : Item → I64 → Prop),
      (∀ item count, T item count → count = d.store.committed.totalCount item) →
      SeesTables C d { s with cache := c' } (g.add source T) := by
    refine fun source T hT => ⟨hintact, h.reads, ?_, h.subs, h.ready⟩
    rintro source' item count (hold | ⟨-, hnew⟩)
    · exact h.has source' item count hold
    · exact hT item count hnew
  cases o with
  | l1Get key =>
    refine hadd .l1 _ ?_
    rintro item count ⟨text, rfl, htells⟩
    exact hshown .l1 key text item count ⟨rfl, rfl, rfl⟩ htells
  | redisGet key =>
    refine hadd .redis _ ?_
    rintro item count ⟨text, rfl, htells⟩
    exact hshown .redis key text item count ⟨rfl, rfl, rfl⟩ htells
  | redisMget keys =>
    refine hadd .redis _ ?_
    rintro item count ⟨texts, rfl, key, text, hmem, htells⟩
    exact hshown .redis key text item count ⟨rfl, texts, rfl, hmem⟩ htells
  | _ => exact ⟨hintact, h.reads, h.has, h.subs, h.ready⟩

/-- An operation on `pending_fetches` or a channel. -/
theorem SeesTables.flightOp (h : SeesTables C d s g) {o : PendingFetches.Op}
    (hasks : g.asks cfg (.flight o)) {x : SvcChoice} {r : o.Ans}
    (hs : handle cfg s i (.flight o) x = some (s', r)) :
    CountLog.Fits (.flight o) r ∧ SeesTables C d s' (g.next (.flight o) r) := by
  obtain ⟨y, f', rfl, hf, rfl⟩ := handle_flight hs
  obtain ⟨htruthful, hunserved⟩ := truthful_handle (t := d.store.committed) hf
    fun tx count ho item hitem => by
      subst ho
      exact h.has _ _ _ (hasks item hitem)
  have hintact : Intact C d { s with flights := f' } :=
    ⟨h.intact.db, h.intact.flights.handle hf, h.intact.cache⟩
  have hsubs : ∀ rx ∈ g.subs, Unserved f' rx ∨ Truthful d.store.committed f' rx.chan :=
    fun rx hrx => (h.subs rx hrx).elim (hunserved rx) fun ht => Or.inr (htruthful _ ht)
  have hready : ∀ rx ∈ g.ready, Truthful d.store.committed f' rx.chan :=
    fun rx hrx => htruthful _ (h.ready rx hrx)
  have hsame : SeesTables C d { s with flights := f' } g := ⟨hintact, h.reads, h.has, hsubs, hready⟩
  cases o with
  | entry key keep =>
    obtain ⟨f₁, role, hentry, -, -, hrole⟩ := h.intact.flights.entry i key keep
    have hrun : PendingFetches.handle s.flights i (.entry key keep) y = some (f₁, role) := hentry
    obtain ⟨rfl, rfl⟩ := Prod.mk.inj (Option.some.inj (hrun.symm.trans hf))
    cases role with
    | leader tx => exact ⟨hrole.2, hsame⟩
    | follower rx =>
      refine ⟨hrole.2.1, hintact, h.reads, h.has, fun rx' hrx' => ?_, hready⟩
      rcases List.mem_cons.mp hrx' with rfl | hold
      · exact Or.inl hrole.2.2
      · exact hsubs rx' hold
  | remove key =>
    refine ⟨fun id hid => ?_, hsame⟩
    subst hid
    unfold PendingFetches.handle at hf
    dsimp only at hf
    cases hpending : s.flights.pending key with
    | none =>
      rw [hpending] at hf
      cases hf
    | some id' =>
      rw [hpending] at hf
      cases hf
      exact h.intact.flights.keyed key _ hpending
  | changed rx =>
    refine ⟨trivial, ?_⟩
    cases r with
    | value =>
      refine ⟨hintact, h.reads, h.has, hsubs, fun rx' hrx' => ?_⟩
      rcases List.mem_cons.mp hrx' with rfl | hold
      · -- a receiver that has seen everything is not told of a value
        refine (h.subs rx' hasks).elim (fun hun => ?_) (htruthful _)
        obtain ⟨ch, hch, hseen⟩ := hun
        unfold PendingFetches.handle at hf
        dsimp only at hf
        rw [hch] at hf
        dsimp only at hf
        rw [if_neg (by simp [hseen])] at hf
        split_ifs at hf
        · cases hf
        · cases y <;> cases hf
      · exact hready rx' hold
    | closed => exact hsame
    | timedOut => exact hsame
  | borrow rx =>
    refine ⟨trivial, hintact, h.reads, ?_, hsubs, hready⟩
    rintro source item count (hold | ⟨-, hitem, hr⟩)
    · exact h.has source item count hold
    · cases hf
      obtain ⟨ch, hch, hvalue⟩ := Option.bind_eq_some_iff.mp hr
      exact h.ready rx hasks ch count item hch hvalue hitem
  | send tx count => exact ⟨trivial, hsame⟩
  | dropSender tx => exact ⟨trivial, hsame⟩
  | dropReceiver rx => exact ⟨trivial, hsame⟩

/-- What a reader of counts obeys by its sources it obeys on its own, and sees the tables. -/
theorem own_counts {α : Type} {p : Svc α} {Q : CountLog → α → Prop} (hp : p.All CountOp)
    (h : (countSources cfg).Obeys Q (.fresh true) p) (hs : Intact C d s) :
    (onItsOwn cfg i).Obeys (fun s' a => ∃ g, Q g a ∧ SeesTables C d s' g) s p := by
  have hfresh : SeesTables C d s (.fresh true) :=
    ⟨hs, rfl, fun _ _ _ hhas => hhas.elim, fun _ hrx => (by cases hrx), fun _ hrx => (by cases hrx)⟩
  refine Protocol.Obeys.simulate (R := SeesTables C d) (fun _ _ _ _ _ _ => trivial) ?_ hp hfresh h
  rintro s g o r s' hR ho hasks ⟨x, -, hs⟩
  cases o with
  | db q =>
    obtain ⟨hfits, hnext⟩ := hR.statement ho hs
    exact ⟨_, ⟨rfl, hfits⟩, hnext⟩
  | cache o => exact ⟨_, ⟨rfl, trivial⟩, hR.cacheOp ho hasks hs⟩
  | flight o =>
    obtain ⟨hfits, hnext⟩ := hR.flightOp hasks hs
    exact ⟨_, ⟨rfl, hfits⟩, hnext⟩
  | hashOrder =>
    cases x with
    | order ks =>
      cases hs
      exact ⟨_, ⟨rfl, trivial⟩, hR⟩
    | _ => cases hs
  | _ => exact ho.elim

theorem own_getCount (h : Intact C d s) (item : Item) :
    (onItsOwn cfg i).Obeys (fun s' result => Intact C d s' ∧ ∀ count, result = .ok count →
      count = ⟨item.1, item.2, d.store.committed.totalCount item⟩) s (getCount cfg item) := by
  refine own_attempt (own_counts (getCountValue_ops cfg item) (getCountValue_sources cfg item) h)
    (fun s' count hcount => ?_) fun s' e hcount => ?_
  · obtain ⟨g, hanswered, hsees⟩ := hcount
    refine ⟨hsees.intact, fun result hresult => ?_⟩
    obtain ⟨source, hhas⟩ := hanswered count rfl
    rw [← Except.ok.inj hresult, hsees.has source item count hhas]
  · obtain ⟨g, -, hsees⟩ := hcount
    refine ⟨hsees.intact, fun result hresult => ?_⟩
    cases hresult

theorem own_batchCounts (h : Intact C d s) (items : List Item) :
    (onItsOwn cfg i).Obeys (fun s' result => Intact C d s' ∧ ∀ counts, result = .ok counts →
      counts = items.map fun item => ⟨item.1, item.2, d.store.committed.totalCount item⟩) s
      (batchCounts cfg items) := by
  refine (own_counts (batchCounts_ops cfg items) (batchCounts_sources cfg items) h).mono ?_
  rintro s' result ⟨g, hanswered, hsees⟩
  refine ⟨hsees.intact, fun counts hcounts => Counted.eq_map ?_⟩
  refine (hanswered counts hcounts).imp ?_
  rintro item r ⟨htype, hid, source, hhas⟩
  exact ⟨htype, hid, hsees.has source item _ hhas⟩

end Counts

/-! ## Pages -/

/-- The rows of the user that pass the filter and come after the cursor, newest first. -/
def sortedLikes (t : Tables) (userId : Uuid) (contentTypeFilter : Option String)
    (cursor : Option (DateTime × I64)) : List LikesRow :=
  (t.likes.filter (Matches userId contentTypeFilter cursor)).insertionSort Newer

/-- The page that a keyset query for one row more than the limit gives. -/
def keysetPage (C : Codec) (t : Tables) (userId : Uuid) (contentTypeFilter : Option String)
    (cursor : Option (DateTime × I64)) (limit : ℕ) : PaginatedResponse :=
  let rows := (t.userLikes userId contentTypeFilter cursor (limit + 1)).map LikesRow.toLikeRow
  pageResponse C rows (min limit rows.length) (rows.length > limit)

section Pages

variable {cfg : Config} {C : Codec} {i : ι} {d : DbState ι} {s : World ι} {t : Tables}
  {userId : Uuid} {contentTypeFilter : Option String} {cursor : Option (DateTime × I64)} {limit : ℕ}

/-- A response depends on the rows it shows. -/
theorem pageResponse_congr {rows rows' : List LikeRow} {n n' : ℕ} {more more' : Bool}
    (hrows : rows.take n = rows'.take n') (hmore : more = more') :
    pageResponse C rows n more = pageResponse C rows' n' more' := by
  unfold pageResponse
  rw [hrows, hmore]

/-- The rows of such a page are the first of all matching rows; there are more if there are more
    than the limit. -/
theorem keysetPage_eq : keysetPage C t userId contentTypeFilter cursor limit =
    pageResponse C ((sortedLikes t userId contentTypeFilter cursor).map LikesRow.toLikeRow) limit
      (limit < (sortedLikes t userId contentTypeFilter cursor).length) := by
  have hrows : t.userLikes userId contentTypeFilter cursor ((limit : ℤ) + 1) =
      (sortedLikes t userId contentTypeFilter cursor).take (limit + 1) := by
    unfold Tables.userLikes sortedLikes
    rw [show ((limit : ℤ) + 1).toNat = limit + 1 by omega]
  unfold keysetPage
  dsimp only
  rw [hrows]
  generalize sortedLikes t userId contentTypeFilter cursor = rows
  refine pageResponse_congr ?_ ?_
  · rw [List.map_take, List.take_take, List.take_eq_take_iff, List.length_take, List.length_map]
    omega
  · rw [List.length_map, List.length_take, decide_eq_decide]
    omega

variable (C t userId contentTypeFilter) in
/-- Cutting the cached rows to a limit up to 100 gives the page of that limit. -/
theorem buildPaginatedResponse_firstRows (hlow : 1 ≤ limit) (hhigh : limit ≤ 100) :
    buildPaginatedResponse C (firstRows t userId contentTypeFilter) limit =
      keysetPage C t userId contentTypeFilter none limit := by
  have hrows : t.userLikes userId contentTypeFilter none 101 =
      (sortedLikes t userId contentTypeFilter none).take 101 := rfl
  rw [keysetPage_eq]
  unfold buildPaginatedResponse firstRows
  dsimp only
  rw [hrows]
  generalize sortedLikes t userId contentTypeFilter none = rows
  have hlength : (((rows.take 101).map LikesRow.toLikeRow).take
      (min 100 ((rows.take 101).map LikesRow.toLikeRow).length)).length = min 100 rows.length := by
    rw [List.length_take, List.length_map, List.length_take]
    omega
  refine pageResponse_congr ?_ ?_
  · rw [hlength, List.take_take, List.map_take, List.take_take, List.take_eq_take_iff,
      List.length_take, List.length_map]
    omega
  · rw [hlength, List.length_map, List.length_take]
    -- up to 100 rows are cached, and whether there were more
    by_cases hmore : limit < min 100 rows.length
    · rw [if_pos hmore]
      exact (decide_eq_true (by omega)).symm
    · rw [if_neg hmore]
      split_ifs with hexact
      · rw [decide_eq_decide]
        omega
      · exact (decide_eq_false (by omega)).symm

theorem clampLimit_bounds (limit : I64) : 1 ≤ clampLimit limit ∧ clampLimit limit ≤ 100 := by
  unfold clampLimit
  omega

variable [DecidableEq ι]

theorem own_firstPage (hC : C.RoundTrips) (h : Intact C d s) (hfilter : contentTypeFilter ≠ some "_")
    (hlow : 1 ≤ limit) (hhigh : limit ≤ 100) :
    (onItsOwn cfg i).Obeys (fun s' result => Intact C d s' ∧ ∀ page, result = .ok page →
      page = keysetPage C d.store.committed userId contentTypeFilter none limit) s
      (firstPage cfg C userId contentTypeFilter limit) := by
  refine (own_get h (.ul userId (contentTypeFilter.getD "_"))).bind fun s₁ value hvalue => ?_
  obtain ⟨h₁, hright⟩ := hvalue
  have hpage := buildPaginatedResponse_firstRows C d.store.committed userId contentTypeFilter hlow hhigh
  have htable : tableText C d.store.committed (.ul userId (contentTypeFilter.getD "_")) =
      C.pageToJson (firstRows d.store.committed userId contentTypeFilter) := by
    show C.pageToJson (firstRows _ userId (pageFilter _)) = _
    rw [pageFilter_of_ne hfilter]
  cases hcached : value.bind C.pageFromJson with
  | some page =>
    obtain ⟨text, htext, hjson⟩ := Option.bind_eq_some_iff.mp hcached
    have hwritten : C.pageToJson (firstRows d.store.committed userId contentTypeFilter) = some text :=
      htable.symm.trans (hright text htext)
    obtain rfl := Option.some.inj ((hC.page _ _ hwritten).symm.trans hjson)
    refine ⟨h₁, fun page hresult => ?_⟩
    rw [← Except.ok.inj hresult]
    exact hpage
  | none =>
    have hdb := own_read cfg i h₁
      (.getUserLikes userId contentTypeFilter none 101) trivial
      (fun rows => rows = (d.store.committed.userLikes userId contentTypeFilter none 101).map
        LikesRow.toLikeRow)
      fun now order rows hrows => (Except.ok.inj (Prod.mk.inj (Option.some.inj hrows)).2).symm
    refine own_attempt hdb (fun s₂ rows hread => ?_) fun s₂ e hread => ⟨hread.1, ?_⟩
    · obtain ⟨h₂, hrows⟩ := hread
      obtain rfl := hrows rows rfl
      dsimp only
      split
      · rename_i json hjson
        have htext : TextRight C d.store.committed (.ul userId (contentTypeFilter.getD "_")) json :=
          htable.trans hjson
        refine (own_set cfg i h₂ _ _ _ htext).bind fun s₃ _ h₃ => ⟨h₃, fun page hresult => ?_⟩
        exact (Except.ok.inj hresult).symm.trans hpage
      · refine ⟨h₂, fun page hresult => ?_⟩
        exact (Except.ok.inj hresult).symm.trans hpage
    · intro page hresult
      cases hresult

/-- A later page is a keyset query from its cursor. -/
theorem own_nextPage (h : Intact C d s) (cursor : String) :
    (onItsOwn cfg i).Obeys (fun s' result => Intact C d s' ∧ ∀ page, result = .ok page →
      ∃ c, Cursor.decode C cursor = some c ∧ page = keysetPage C d.store.committed userId
        contentTypeFilter (some (c.timestamp, c.id)) limit) s
      (nextPage C userId contentTypeFilter cursor limit) := by
  unfold nextPage
  cases hdecode : Cursor.decode C cursor with
  | none =>
    refine ⟨h, fun page hresult => ?_⟩
    cases hresult
  | some c =>
    have hdb := own_read cfg i h
      (.getUserLikes userId contentTypeFilter (some (c.timestamp, c.id)) (limit + 1)) trivial
      (fun rows => rows = (d.store.committed.userLikes userId contentTypeFilter
        (some (c.timestamp, c.id)) (limit + 1)).map LikesRow.toLikeRow)
      fun now order rows hrows => (Except.ok.inj (Prod.mk.inj (Option.some.inj hrows)).2).symm
    refine own_attempt hdb (fun s₁ rows hread => ?_) fun s₁ e hread => ⟨hread.1, ?_⟩
    · obtain ⟨h₁, hrows⟩ := hread
      obtain rfl := hrows rows rfl
      refine ⟨h₁, fun page hresult => ⟨c, rfl, ?_⟩⟩
      exact (Except.ok.inj hresult).symm
    · intro page hresult
      cases hresult

end Pages

end SocialApi.Services
