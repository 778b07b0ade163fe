import SocialApi.Services.MissingCounts
import SocialApi.Repositories.LikeCounts

/-!
# Where the counts come from

Every count that a call returns, stores or sends was once read from the database, by
this call or by another one. Here a call remembers (`CountLog`) which counts of which
items it has seen, and where: in a statement of its own, on the channel of a call it
follows, in Redis or in L1. As a protocol (`countSources`):

* Redis is given only what the call has from the database itself;
* L1 is given what the call has from the database or from Redis;
* a leader sends what it has from the database;
* a count from a channel is one that was sent after the call had subscribed.

Results: `getCountValue_sources`, `batchCounts_sources`: every count returned is one the
call has seen for the item. The writers are in `SocialApi.Services.WriterSources`.
-/

namespace SocialApi.Services

open SocialApi.Concurrent SocialApi.Postgres SocialApi.PendingFetches SocialApi.Repositories

/-! ## The log -/

/-- Where a call has a count from. -/
inductive Source where
  | database
  | leader
  | redis
  | l1
  deriving DecidableEq, Repr

/-- What a call has seen. -/
structure CountLog where
  /-- The call opens no transaction. -/
  reads : Bool
  phase : Phase
  /-- The counts it has, each with its item. -/
  has : Source → Item → I64 → Prop
  /-- Its subscriptions. -/
  subs : List Receiver
  /-- The subscriptions whose wait has ended with a value. -/
  ready : List Receiver

/-- The text under the key says that the item has this many likes. -/
def Tells (key : CacheKey) (text : String) (item : Item) (count : I64) : Prop :=
  countCacheKey item = key ∧ I64.parse text = some count

/-- The text of a count tells that count, of the item of its key. -/
theorem tells_toString {item it : Item} {count c : I64}
    (h : Tells (countCacheKey item) count.toString it c) : it = item ∧ c = count := by
  obtain ⟨hkey, hparse⟩ := h
  rw [I64.parse_toString] at hparse
  exact ⟨countCacheKey_injective hkey, (Option.some.inj hparse).symm⟩

/-- The statements that run on the pool. -/
def ReadsOnly : DbOp → Prop
  | .countRow _ => True
  | .batchGetCounts _ => True
  | .getLikeStatus _ _ => True
  | .batchGetStatuses _ _ => True
  | .getUserLikes _ _ _ _ => True
  | _ => False

/-- The counts that the answer to a statement contains. -/
def CountIn : (q : DbOp) → q.Ans → Item → I64 → Prop
  | .countRow item, .ok row, it, count => it = item ∧ count = row.getD 0
  | .selectCount item, .ok row, it, count => it = item ∧ count = row.getD 0
  | .selectExisting _ item, .ok (some (_, total)), it, count => it = item ∧ count = total
  | .batchGetCounts items, .ok rows, it, count =>
    it ∈ items ∧ count = (collectRows rows it).getD 0
  | _, _, _, _ => False

/-- These are the committed counts, if what a transaction looks at is what is committed. -/
theorem countIn_total {ι : Type} [DecidableEq ι] {s s' : DbState ι} {i : ι} {q : DbOp}
    {x : DbChoice} {r : q.Ans} (h : Postgres.handle s i q x = some (s', r))
    (hview : ((∃ userId item, q = .selectExisting userId item) ∨ ∃ item, q = .selectCount item) →
      s.view i = s.store.committed)
    {it : Item} {count : I64} (hcount : CountIn q r it count) :
    count = s.store.committed.totalCount it := by
  cases x with
  | fail message =>
    cases h
    cases q <;> exact hcount.elim
  | run now order =>
    have h : runStatement s i now order q = some (s', r) := h
    cases q with
    | countRow item =>
      cases h
      obtain ⟨rfl, rfl⟩ := hcount
      rfl
    | selectCount item =>
      cases h
      obtain ⟨rfl, rfl⟩ := hcount
      rw [hview (Or.inr ⟨_, rfl⟩)]
      rfl
    | selectExisting userId item =>
      simp only [runStatement, Option.some.injEq, Prod.mk.injEq] at h
      rw [← h.2, hview (Or.inl ⟨_, _, rfl⟩)] at hcount
      cases hfind : s.store.committed.find (userId, item) with
      | none => rw [hfind] at hcount; exact hcount.elim
      | some row =>
        rw [hfind] at hcount
        obtain ⟨rfl, rfl⟩ := hcount
        rfl
    | batchGetCounts items =>
      cases h
      obtain ⟨hmem, rfl⟩ := hcount
      have hperm := shuffle_perm order (items.map fun item =>
        (item, s.store.committed.totalCount item))
      have hrow : collectRows (shuffle order (items.map fun item =>
          (item, s.store.committed.totalCount item))) it = some (s.store.committed.totalCount it) :=
        collectRows_eq (fun row hrow => ?_) ?_
      · rw [hrow, Option.getD_some]
      · obtain ⟨item, -, rfl⟩ := List.mem_map.mp (hperm.mem_iff.mp hrow)
        rfl
      · exact List.mem_map.mpr ⟨_, hperm.mem_iff.mpr (List.mem_map.mpr ⟨it, hmem, rfl⟩), rfl⟩
    | _ => exact hcount.elim

namespace CountLog

/-- A call that has not done anything. -/
def fresh (reads : Bool) : CountLog := ⟨reads, .outside, fun _ _ _ => False, [], []⟩

/-- More counts from a source. -/
def add (g : CountLog) (source : Source) (T : Item → I64 → Prop) : CountLog :=
  { g with has := fun s item count => g.has s item count ∨ s = source ∧ T item count }

/-- The transaction has changed the count of an item, and that is all the call has seen since. -/
def changed (g : CountLog) (item : Item) (count : I64) : CountLog :=
  { g with phase := .outside, has := fun s it c => s = .database ∧ it = item ∧ c = count }

/-- The operations allowed. -/
def asks (cfg : Config) (g : CountLog) : SvcOp → Prop
  | .db q => g.phase.asks q ∧ (g.reads = true → ReadsOnly q)
  | .cache (.l1Insert key text) => ∀ item count, Tells key text item count →
      g.has .database item count ∨ g.has .redis item count
  | .cache (.redisSetEx key text ttl) => ∀ item, countCacheKey item = key →
      ttl = cfg.cacheTtlLikeCountsSecs ∧ ∀ count, Tells key text item count →
        g.has .database item count
  | .flight (.send tx count) => ∀ item, countCacheKey item = tx.1 → g.has .database item count
  | .flight (.changed rx) => rx ∈ g.subs
  | .flight (.borrow rx) => rx ∈ g.ready
  | _ => True

/-- The log after the answer to a statement. -/
def afterDb (g : CountLog) : (q : DbOp) → q.Ans → CountLog
  | .commit, .ok _ =>
    match g.phase with
    | .insertedCounted key count => g.changed key.2 count
    | .deletedCounted key count => g.changed key.2 count
    | _ => { g with phase := .outside }
  | q, r => { g.add .database (CountIn q r) with phase := g.phase.next q r }

/-- The log after the answer to an operation. -/
def next (g : CountLog) : (o : SvcOp) → o.Ans → CountLog
  | .db q, r => g.afterDb q r
  | .cache (.l1Get key), r => g.add .l1 fun item count => ∃ text, r = some text ∧ Tells key text item count
  | .cache (.redisGet key), r =>
    g.add .redis fun item count => ∃ text, r = some text ∧ Tells key text item count
  | .cache (.redisMget keys), r =>
    g.add .redis fun item count => ∃ texts, r = some texts ∧
      ∃ key text, (key, some text) ∈ keys.zip texts ∧ Tells key text item count
  | .flight (.entry _ _), .follower rx => { g with subs := rx :: g.subs }
  | .flight (.changed rx), .value => { g with ready := rx :: g.ready }
  | .flight (.borrow rx), r =>
    g.add .leader fun item count => countCacheKey item = rx.chan.1 ∧ r = some count
  | _, _ => g

/-- What is known about an answer. -/
def Fits : (o : SvcOp) → o.Ans → Prop
  | .db (.decrementCount _), r => r ≠ .ok none
  | .flight (.entry key _), .leader id => id.1 = key
  | .flight (.entry key _), .follower rx => rx.chan.1 = key
  | .flight (.remove key), r => ∀ id, r = some id → id.1 = key
  | _, _ => True

end CountLog

/-- Where the counts may come from, as a protocol. -/
def countSources (cfg : Config) : Protocol SvcOp SvcOp.Ans CountLog where
  asks := CountLog.asks cfg
  answers g o r g' := g' = g.next o r ∧ CountLog.Fits o r

/-- What a statement leaves of the log, and the phase it takes the call to. -/
theorem afterDb_eq (g : CountLog) (q : DbOp) (r : q.Ans) :
    (g.afterDb q r).subs = g.subs ∧ (g.afterDb q r).ready = g.ready ∧
      (g.afterDb q r).phase = g.phase.next q r := by
  cases q with
  | commit =>
    cases r with
    | error e => exact ⟨rfl, rfl, rfl⟩
    | ok u =>
      unfold CountLog.afterDb
      cases hphase : g.phase <;> exact ⟨rfl, rfl, rfl⟩
  | _ => exact ⟨rfl, rfl, rfl⟩

/-- The statement commits a new count of the item. -/
def CommitsCount (phase : Phase) : (q : DbOp) → q.Ans → Item → I64 → Prop
  | .commit, .ok _, item, count => ∃ key : LikeKey, key.2 = item ∧
      (phase = .insertedCounted key count ∨ phase = .deletedCounted key count)
  | _, _, _, _ => False

/-- A count in the log after a statement was there before, or is in the answer, or has just been
    committed. -/
theorem has_afterDb {g : CountLog} {q : DbOp} {r : q.Ans} {source : Source} {item : Item}
    {count : I64} (h : (g.afterDb q r).has source item count) :
    g.has source item count ∨ source = .database ∧ CountIn q r item count ∨
      source = .database ∧ CommitsCount g.phase q r item count := by
  cases q with
  | commit =>
    cases r with
    | error e => exact h.imp_right Or.inl
    | ok u =>
      unfold CountLog.afterDb at h
      cases hphase : g.phase with
      | insertedCounted key c =>
        rw [hphase] at h
        obtain ⟨rfl, rfl, rfl⟩ := h
        exact Or.inr (Or.inr ⟨rfl, key, rfl, Or.inl rfl⟩)
      | deletedCounted key c =>
        rw [hphase] at h
        obtain ⟨rfl, rfl, rfl⟩ := h
        exact Or.inr (Or.inr ⟨rfl, key, rfl, Or.inr rfl⟩)
      | _ => rw [hphase] at h; exact Or.inl h
  | _ => exact h.imp_right Or.inl

/-- The committed tables then have it. -/
theorem commitsCount_total {ι : Type} [DecidableEq ι] {s s' : DbState ι} {phase : ι → Phase} {i : ι}
    {q : DbOp} {x : DbChoice} {r : q.Ans} (h : DbInv s phase)
    (hs : Postgres.handle s i q x = some (s', r)) {item : Item} {count : I64}
    (hcount : CommitsCount (phase i) q r item count) :
    s'.store.committed.totalCount item = count := by
  cases q with
  | commit =>
    cases x with
    | fail message => cases hs; exact hcount.elim
    | run now order =>
      cases hs
      have hholds := h.holds i
      have hset : ∀ (w : Write) (key : LikeKey),
          s.store.txs i = some [w, .setCount key.2 count] →
          (s.store.commit layout i).committed.totalCount key.2 = count := by
        intro w key hws
        rw [Store.commit_committed, Store.view_of_txs hws]
        show (Write.apply (.setCount key.2 count) _).totalCount key.2 = count
        rw [totalCount_setCount, if_pos rfl]
      obtain ⟨key, rfl, hphase | hphase⟩ := hcount
      · rw [hphase] at hholds
        obtain ⟨row, rfl, hws, -⟩ := hholds
        exact hset _ row.key hws
      · rw [hphase] at hholds
        exact hset _ key hholds.1
  | _ => exact hcount.elim

/-! ## A reader's log grows -/

/-- What a call that only reads has seen it does not forget. -/
structure LogGrows (g g' : CountLog) : Prop where
  reads : g'.reads = true
  phase : g'.phase = g.phase
  has : ∀ s item count, g.has s item count → g'.has s item count
  subs : ∀ rx ∈ g.subs, rx ∈ g'.subs
  ready : ∀ rx ∈ g.ready, rx ∈ g'.ready

section Grows

variable {cfg : Config} {g g' : CountLog} {α : Type}

theorem LogGrows.refl (h : g.reads = true) : LogGrows g g :=
  ⟨h, rfl, fun _ _ _ h => h, fun _ h => h, fun _ h => h⟩

theorem LogGrows.trans {g'' : CountLog} (h : LogGrows g g') (h' : LogGrows g' g'') :
    LogGrows g g'' :=
  ⟨h'.reads, h'.phase.trans h.phase, fun _ _ _ hc => h'.has _ _ _ (h.has _ _ _ hc),
    fun rx hrx => h'.subs rx (h.subs rx hrx), fun rx hrx => h'.ready rx (h.ready rx hrx)⟩

theorem logGrows_add (h : g.reads = true) (source : Source) (T : Item → I64 → Prop) :
    LogGrows g (g.add source T) :=
  ⟨h, rfl, fun _ _ _ h => Or.inl h, fun _ h => h, fun _ h => h⟩

/-- A statement on the pool leaves the phase alone. -/
theorem afterDb_of_readsOnly {q : DbOp} (hq : ReadsOnly q) (r : q.Ans) :
    g.afterDb q r = g.add .database (CountIn q r) := by
  have hphase : g.phase.next q r = g.phase := by
    cases q with
    | countRow item => rfl
    | batchGetCounts items => rfl
    | getLikeStatus userId item => rfl
    | batchGetStatuses userId items => rfl
    | getUserLikes userId filter cursor limit => rfl
    | _ => exact hq.elim
  have hafter : g.afterDb q r = { g.add .database (CountIn q r) with phase := g.phase.next q r } := by
    cases q with
    | commit => exact hq.elim
    | _ => rfl
  rw [hafter, hphase]
  rfl

theorem logGrows_next (h : g.reads = true) {o : SvcOp} (hasks : g.asks cfg o) (r : o.Ans) :
    LogGrows g (g.next o r) := by
  have hsame : LogGrows g g := .refl h
  cases o with
  | db q =>
    show LogGrows g (g.afterDb q r)
    rw [afterDb_of_readsOnly (hasks.2 h)]
    exact logGrows_add h _ _
  | cache o =>
    cases o with
    | l1Get key => exact logGrows_add h _ _
    | redisGet key => exact logGrows_add h _ _
    | redisMget keys => exact logGrows_add h _ _
    | _ => exact hsame
  | flight o =>
    cases o with
    | entry key keep =>
      cases r with
      | leader id => exact hsame
      | follower rx =>
        exact ⟨h, rfl, fun _ _ _ h => h, fun _ => List.mem_cons_of_mem _, fun _ h => h⟩
    | changed rx =>
      cases r with
      | value => exact ⟨h, rfl, fun _ _ _ h => h, fun _ h => h, fun _ => List.mem_cons_of_mem _⟩
      | closed => exact hsame
      | timedOut => exact hsame
    | borrow rx => exact logGrows_add h _ _
    | _ => exact hsame
  | _ => exact hsame

/-- A reader ends with a log that has grown. -/
theorem obeys_grows {Q : CountLog → α → Prop} {p : Svc α} (hg : g.reads = true)
    (h : (countSources cfg).Obeys Q g p) :
    (countSources cfg).Obeys (fun g' a => LogGrows g g' ∧ Q g' a) g p := by
  have htrans : ∀ g₁ g₂ g₃ : CountLog, (g₁.reads = true → LogGrows g₁ g₂) →
      (g₂.reads = true → LogGrows g₂ g₃) → g₁.reads = true → LogGrows g₁ g₃ :=
    fun _ _ _ h₁₂ h₂₃ hread => (h₁₂ hread).trans (h₂₃ (h₁₂ hread).reads)
  refine (h.along (R := fun g g' => g.reads = true → LogGrows g g') (fun _ => .refl) htrans ?_).mono
    fun g' a hq => ⟨hq.1 hg, hq.2⟩
  rintro g o r g' hasks ⟨rfl, -⟩ hread
  exact logGrows_next hread hasks r

end Grows

/-! ## The cache -/

/-- The call has a count of the item. -/
def Seen (g : CountLog) (item : Item) (count : I64) : Prop := ∃ source, g.has source item count

/-- The call has the counts that the value under a key tells. -/
def SeenIn (g : CountLog) (key : CacheKey) (value : Option String) : Prop :=
  ∀ item count text, value = some text → Tells key text item count → Seen g item count

section Cache

variable {cfg : Config} {g g' : CountLog}

theorem Seen.grows {item : Item} {count : I64} (h : LogGrows g g') (hseen : Seen g item count) :
    Seen g' item count := by
  obtain ⟨source, hs⟩ := hseen
  exact ⟨source, h.has _ _ _ hs⟩

theorem SeenIn.grows {key : CacheKey} {value : Option String} (h : LogGrows g g')
    (hseen : SeenIn g key value) : SeenIn g' key value :=
  fun item count text hv ht => (hseen item count text hv ht).grows h

theorem seenIn_none (key : CacheKey) : SeenIn g key none :=
  fun _ _ _ hv => absurd hv (Option.some_ne_none _).symm

/-- The operations of the cache. -/
def cacheSources (cfg : Config) : Protocol Cache.Op Cache.Op.Ans CountLog :=
  (countSources cfg).comap .cache fun _ r => r

/-- The answer of a layer is seen. -/
theorem seenIn_add {source : Source} {key : CacheKey} {value : Option String} :
    SeenIn (g.add source fun item count => ∃ text, value = some text ∧ Tells key text item count)
      key value :=
  fun _ _ text hv ht => ⟨source, Or.inr ⟨rfl, text, hv, ht⟩⟩

theorem get_sources (key : CacheKey) :
    (countSources cfg).Obeys (fun g' value => SeenIn g' key value) g (cache (Cache.get key)) := by
  refine ⟨trivial, ?_⟩
  rintro r g' ⟨rfl, -⟩
  cases r with
  | some val => exact seenIn_add
  | none =>
    refine ⟨trivial, ?_⟩
    rintro r g' ⟨rfl, -⟩
    cases r with
    | none => exact seenIn_none key
    | some val =>
      refine ⟨fun item count ht => Or.inr (Or.inr ⟨rfl, val, rfl, ht⟩), ?_⟩
      rintro r g' ⟨rfl, -⟩
      exact seenIn_add

/-- Storing a count that the call has from the database. -/
theorem writeCount_sources {Q : CountLog → Unit → Prop} {item : Item} {count : I64}
    (hcount : g.has .database item count) (hQ : Q g ()) :
    (countSources cfg).Obeys Q g (writeCount cfg item count) := by
  have hstored : ∀ it c, Tells (countCacheKey item) count.toString it c → g.has .database it c := by
    intro it c ht
    obtain ⟨rfl, rfl⟩ := tells_toString ht
    exact hcount
  refine ⟨fun it c ht => Or.inl (hstored it c ht), ?_⟩
  rintro r g' ⟨rfl, -⟩
  refine ⟨fun it _ => ⟨rfl, hstored it⟩, ?_⟩
  rintro r g' ⟨rfl, -⟩
  exact hQ

/-! ## Many keys -/

/-- What the values tell under the keys, position by position, is seen. -/
def SeenAll (g : CountLog) (keys : List CacheKey) (values : List (Option String)) : Prop :=
  ∀ (i : ℕ) (key : CacheKey), keys[i]? = some key → SeenIn g key values[i]?.join

theorem SeenAll.grows {keys : List CacheKey} {values : List (Option String)} (h : LogGrows g g')
    (hseen : SeenAll g keys values) : SeenAll g' keys values :=
  fun i key hk => (hseen i key hk).grows h

theorem mgetL1_sources (keys : List CacheKey) (hg : g.reads = true) :
    (cacheSources cfg).Obeys (fun g' values => LogGrows g g' ∧ SeenAll g' keys values) g
      (Cache.mgetL1 keys) := by
  induction keys generalizing g with
  | nil => exact ⟨.refl hg, fun i key hk => by simp at hk⟩
  | cons key keys ih =>
    refine ⟨trivial, ?_⟩
    rintro r g' ⟨val, rfl, rfl, -⟩
    have hgrows := logGrows_next hg (show g.asks cfg (.cache (.l1Get key)) from trivial) val
    refine (ih hgrows.reads).bind ?_
    rintro g' results ⟨hgrows', hseen⟩
    refine ⟨hgrows.trans hgrows', fun i key' hk => ?_⟩
    cases i with
    | zero =>
      obtain rfl := Option.some.inj hk
      exact seenIn_add.grows hgrows'
    | succ i => exact hseen i key' hk

theorem mem_redisNeeded {keys : List CacheKey} {results : List (Option String)} {e : ℕ × CacheKey}
    (he : e ∈ Cache.redisNeeded keys results) : keys[e.1]? = some e.2 := by
  unfold Cache.redisNeeded at he
  obtain ⟨⟨⟨key, val⟩, i⟩, hmem, rfl⟩ := List.mem_map.mp he
  have hget := List.mem_zipIdx_iff_getElem?.mp (List.mem_filter.mp hmem).1
  exact (List.getElem?_zip_eq_some.mp hget).1

/-- Filling in what Redis has answered. -/
theorem mgetFill_sources {keys : List CacheKey} (entries : List ((ℕ × CacheKey) × Option String))
    {values : List (Option String)} (hg : g.reads = true)
    (hkeys : ∀ e ∈ entries, keys[e.1.1]? = some e.1.2)
    (hredis : ∀ e ∈ entries, ∀ text, e.2 = some text → ∀ item count,
      Tells e.1.2 text item count → g.has .redis item count)
    (hseen : SeenAll g keys values) :
    (cacheSources cfg).Obeys (fun g' values => SeenAll g' keys values) g
      (Cache.mgetFill entries values) := by
  induction entries generalizing values with
  | nil => exact hseen
  | cons e entries ih =>
    obtain ⟨⟨idx, key⟩, val⟩ := e
    have hset : SeenAll g keys (values.set idx val) := by
      intro i key' hk
      rw [List.getElem?_set]
      split_ifs with hidx hlen
      · subst hidx
        obtain rfl := Option.some.inj ((hkeys _ List.mem_cons_self).symm.trans hk)
        exact fun item count text hv ht => ⟨.redis, hredis _ List.mem_cons_self text hv item count ht⟩
      · exact seenIn_none key'
      · exact hseen i key' hk
    have hrest : (cacheSources cfg).Obeys (fun g' values => SeenAll g' keys values) g
        (Cache.mgetFill entries (values.set idx val)) :=
      ih (fun e he => hkeys e (List.mem_cons_of_mem _ he))
        (fun e he => hredis e (List.mem_cons_of_mem _ he)) hset
    cases val with
    | none => exact hrest
    | some text =>
      refine ⟨fun item count ht => Or.inr (hredis _ List.mem_cons_self text rfl item count ht), ?_⟩
      rintro r g' ⟨_, rfl, rfl, -⟩
      exact hrest

theorem mget_sources (keys : List CacheKey) (hg : g.reads = true) :
    (countSources cfg).Obeys (fun g' values => SeenAll g' keys values) g (cache (Cache.mget keys)) := by
  refine Protocol.obeys_lift.mpr ?_
  refine (mgetL1_sources keys hg).bind ?_
  rintro g' results ⟨hgrows, hseen⟩
  show (cacheSources cfg).Obeys _ g' (if _ then _ else _)
  split_ifs with hnil
  · exact hseen
  · refine ⟨trivial, ?_⟩
    rintro r g'' ⟨vals, rfl, rfl, -⟩
    have hgrows' := logGrows_next hgrows.reads (show CountLog.asks cfg _
      (.cache (.redisMget ((Cache.redisNeeded keys results).map Prod.snd))) from trivial) vals
    cases vals with
    | none => exact hseen.grows hgrows'
    | some vals =>
      refine mgetFill_sources _ hgrows'.reads (fun e he => ?_) (fun e he text ht item count htell => ?_)
        (hseen.grows hgrows')
      · exact mem_redisNeeded (List.of_mem_zip he).1
      · refine Or.inr ⟨rfl, vals, rfl, e.1.2, text, ?_, htell⟩
        rw [List.zip_map_left]
        exact List.mem_map.mpr ⟨e, he, by rw [← ht]; rfl⟩

end Cache

/-! ## One item -/

section Readers

variable {cfg : Config} {g g' : CountLog} {item : Item}

/-- A successful result is a count of the item that the call has seen. -/
def Answered (item : Item) (g : CountLog) (result : Except AppError I64) : Prop :=
  ∀ count, result = .ok count → Seen g item count

theorem answered_error (error : AppError) : Answered item g (.error error) :=
  fun count h => by cases h

/-- Waiting for a channel that is the item's. -/
theorem awaitSharedCount_sources {rx : Receiver} (hrx : rx ∈ g.subs)
    (hitem : rx.chan.1 = countCacheKey item) :
    (countSources cfg).Obeys (fun g' result => ∀ count, result = some count → Seen g' item count) g
      (awaitSharedCount rx) := by
  refine ⟨hrx, ?_⟩
  rintro r g' ⟨rfl, -⟩
  cases r with
  | value =>
    refine ⟨List.mem_cons_self, ?_⟩
    rintro r g' ⟨rfl, -⟩ count hcount
    exact ⟨.leader, Or.inr ⟨rfl, hitem.symm, hcount⟩⟩
  | closed => exact fun count h => by cases h
  | timedOut => exact fun count h => by cases h

/-- The answer to a query of one count. -/
theorem getCount_sources (hphase : g.phase = .outside) :
    (countSources cfg).Obeys (fun g' result => ∀ count, result = .ok count →
      g'.has .database item count) g (db (Repositories.getCount item)) := by
  refine ⟨⟨by rw [hphase]; trivial, fun _ => trivial⟩, ?_⟩
  rintro (error | row) g' ⟨rfl, -⟩ count hcount
  · cases hcount
  · exact Or.inr ⟨rfl, rfl, (Except.ok.inj hcount).symm⟩

/-- An operation that no count has to do with. -/
theorem flight_sources {α : Type} {Q : CountLog → α → Prop} {o : PendingFetches.Op}
    {f : o.Ans → Svc α} (hasks : g.asks cfg (.flight o)) (hnext : ∀ r, g.next (.flight o) r = g)
    (hf : ∀ r, CountLog.Fits (.flight o) r → (countSources cfg).Obeys Q g (f r)) :
    (countSources cfg).Obeys Q g (.op (.flight o) f) := by
  refine ⟨hasks, ?_⟩
  rintro r g' ⟨rfl, hfits⟩
  rw [hnext r]
  exact hf r hfits

theorem removePending_sources {α : Type} {Q : CountLog → α → Prop} (key : CacheKey) {f : Unit → Svc α}
    (hf : (countSources cfg).Obeys Q g (f ())) :
    (countSources cfg).Obeys Q g ((removePending key).bind f) := by
  refine flight_sources trivial (fun _ => rfl) fun r _ => ?_
  cases r with
  | none => exact hf
  | some tx => exact flight_sources trivial (fun _ => rfl) fun _ _ => hf

theorem followCount_sources {rx : Receiver} (hg : g.reads = true) (hphase : g.phase = .outside)
    (hrx : rx ∈ g.subs) (hitem : rx.chan.1 = countCacheKey item) :
    (countSources cfg).Obeys (Answered item) g (followCount item rx) := by
  refine (obeys_grows hg (awaitSharedCount_sources hrx hitem)).bind ?_
  rintro g' result ⟨hgrows, hseen⟩
  cases result with
  | some count =>
    refine flight_sources trivial (fun _ => rfl) fun _ _ => ?_
    rintro c hc
    exact hseen c (by rw [Except.ok.inj hc])
  | none =>
    refine (getCount_sources (hgrows.phase.trans hphase)).bind ?_
    rintro g'' result hresult
    refine flight_sources trivial (fun _ => rfl) fun _ _ => ?_
    exact fun count hcount => ⟨.database, hresult count hcount⟩

theorem leadCount_sources {tx : ChanId} (hphase : g.phase = .outside)
    (hitem : tx.1 = countCacheKey item) :
    (countSources cfg).Obeys (Answered item) g (leadCount cfg item tx) := by
  refine (getCount_sources hphase).bind ?_
  rintro g' (error | count) hresult
  · refine removePending_sources _ (flight_sources trivial (fun _ => rfl) fun _ _ => ?_)
    exact answered_error error
  · have hcount : g'.has .database item count := hresult count rfl
    refine flight_sources (fun it hit => ?_) (fun _ => rfl) fun _ _ => ?_
    · rw [countCacheKey_injective (hit.trans hitem)]
      exact hcount
    · refine removePending_sources _ ?_
      refine (writeCount_sources (Q := fun g _ => g.has .database item count) hcount hcount).bind ?_
      rintro g'' - hcount
      refine flight_sources trivial (fun _ => rfl) fun _ _ => ?_
      rintro c hc
      rw [← Except.ok.inj hc]
      exact ⟨.database, hcount⟩

theorem getCountValue_sources (cfg : Config) (item : Item) :
    (countSources cfg).Obeys (Answered item) (.fresh true) (getCountValue cfg item) := by
  refine (obeys_grows rfl (get_sources _)).bind ?_
  rintro g cached ⟨hgrows, hseen⟩
  cases hhit : cached.bind I64.parse with
  | some count =>
    obtain ⟨text, htext, hparse⟩ := Option.bind_eq_some_iff.mp hhit
    rintro c hc
    rw [← Except.ok.inj hc]
    exact hseen item count text htext ⟨rfl, hparse⟩
  | none =>
    refine ⟨trivial, ?_⟩
    rintro (tx | rx) g' ⟨rfl, hkey⟩
    · exact leadCount_sources hgrows.phase hkey
    · exact followCount_sources hgrows.reads hgrows.phase List.mem_cons_self hkey

/-! ## Many items -/

/-- An entry for `set_many` that holds a count of an item from the database. -/
def Entry (cfg : Config) (g : CountLog) (e : CacheKey × String × ℕ) : Prop :=
  ∃ item count, e = (countCacheKey item, count.toString, cfg.cacheTtlLikeCountsSecs) ∧
    g.has .database item count

theorem Entry.tells {e : CacheKey × String × ℕ} (h : Entry cfg g e) {it : Item} {c : I64}
    (ht : Tells e.1 e.2.1 it c) : g.has .database it c := by
  obtain ⟨item, count, rfl, hcount⟩ := h
  obtain ⟨rfl, rfl⟩ := tells_toString ht
  exact hcount

theorem setMany_sources {Q : CountLog → Unit → Prop} {entries : List (CacheKey × String × ℕ)}
    (hentries : ∀ e ∈ entries, Entry cfg g e) (hQ : Q g ()) :
    (countSources cfg).Obeys Q g (cache (Cache.setMany entries)) := by
  have hl1 : ∀ es, (∀ e ∈ es, Entry cfg g e) →
      (cacheSources cfg).Obeys (fun g' _ => g' = g) g (Cache.setManyL1 es) := by
    intro es
    induction es with
    | nil => intro _; rfl
    | cons e es ih =>
      intro hes
      refine ⟨fun it c ht => Or.inl ((hes e List.mem_cons_self).tells ht), ?_⟩
      rintro r g' ⟨_, rfl, rfl, -⟩
      exact ih fun e he => hes e (List.mem_cons_of_mem _ he)
  have hredis : ∀ es, (∀ e ∈ es, Entry cfg g e) →
      (cacheSources cfg).Obeys (fun g' _ => g' = g) g (Cache.setManyRedis es) := by
    intro es
    induction es with
    | nil => intro _; rfl
    | cons e es ih =>
      intro hes
      refine ⟨fun it _ => ⟨?_, fun c ht => (hes e List.mem_cons_self).tells ht⟩, ?_⟩
      · obtain ⟨item, count, rfl, -⟩ := hes e List.mem_cons_self
        rfl
      · rintro r g' ⟨_, rfl, rfl, -⟩
        exact ih fun e he => hes e (List.mem_cons_of_mem _ he)
  refine Protocol.obeys_lift.mpr ((hl1 entries hentries).bind ?_)
  rintro g' - rfl
  refine (hredis entries hentries).mono ?_
  rintro g'' - rfl
  exact hQ

variable {items : List Item} {missing : MissingMap} {results : List BatchCountResult}

/-- The call has subscribed to every key it follows. -/
def Subscribed (g : CountLog) (rxs : List (CacheKey × Receiver)) : Prop := ∀ x ∈ rxs, x.2 ∈ g.subs

theorem electLoop_sources (keys : List CacheKey) {visited : List CacheKey} {e : Election}
    (hg : g.reads = true) (he : Elected items missing visited e)
    (hsubs : Subscribed g e.followerRxs) :
    (countSources cfg).Obeys (fun g' e => LogGrows g g' ∧ Elected items missing (visited ++ keys) e ∧
      Subscribed g' e.followerRxs) g (electLoop items missing keys e) := by
  induction keys generalizing visited e g with
  | nil => exact ⟨.refl hg, by simpa using he, hsubs⟩
  | cons key keys ih =>
    have happ : visited ++ key :: keys = (visited ++ [key]) ++ keys := by simp
    rw [happ]
    refine ⟨trivial, ?_⟩
    rintro (id | rx) g' ⟨rfl, hkey⟩
    · exact ih hg he.lead hsubs
    · have hgrows := logGrows_next hg
        (show g.asks cfg (.flight (.entry key false)) from trivial) (.follower rx)
      refine (ih hgrows.reads (he.follow hkey) ?_).mono fun g' e h => ⟨hgrows.trans h.1, h.2⟩
      intro x hx
      rcases List.mem_append.mp hx with hx | hx
      · exact hgrows.subs _ (hsubs x hx)
      · obtain rfl := List.mem_singleton.mp hx
        exact List.mem_cons_self

/-- The leader's keys are filled in with what the query has returned. -/
theorem leaderLoop_sources {countMap : Item → Option I64} (keys : List CacheKey)
    {todo : List CacheKey} {entries : List (CacheKey × String × ℕ)}
    (htracked : Tracked items missing)
    (hkeys : ∀ key ∈ keys, ∃ item, firstItem items missing key = some item ∧
      countCacheKey item = key ∧ g.has .database item ((countMap item).getD 0))
    (hfilled : Filled (Seen g) items missing (keys ++ todo) results)
    (hentries : ∀ e ∈ entries, Entry cfg g e) :
    (countSources cfg).Obeys (fun g' out => g' = g ∧ Filled (Seen g) items missing todo out.1 ∧
      ∀ e ∈ out.2, Entry cfg g e) g (leaderLoop cfg items missing countMap keys results entries) := by
  induction keys generalizing results entries with
  | nil => exact ⟨rfl, hfilled, hentries⟩
  | cons key keys ih =>
    obtain ⟨item, hfirst, hitem, hcount⟩ := hkeys key List.mem_cons_self
    have hvalue : ((firstItem items missing key).bind countMap).getD 0 = (countMap item).getD 0 := by
      rw [hfirst, Option.bind_some]
    have hrest : (countSources cfg).Obeys (fun g' out => g' = g ∧
        Filled (Seen g) items missing todo out.1 ∧ ∀ e ∈ out.2, Entry cfg g e) g
        (leaderLoop cfg items missing countMap keys
          (setCounts results (missing.positions key) ((countMap item).getD 0))
          (entries ++ [(key, ((countMap item).getD 0).toString, cfg.cacheTtlLikeCountsSecs)])) := by
      refine ih (fun key hkey => hkeys key (List.mem_cons_of_mem _ hkey))
        (hfilled.setCounts htracked hitem ⟨.database, hcount⟩) fun e he => ?_
      rcases List.mem_append.mp he with he | he
      · exact hentries e he
      · obtain rfl := List.mem_singleton.mp he
        exact ⟨item, _, by rw [hitem], hcount⟩
    unfold leaderLoop
    rw [hvalue]
    refine flight_sources trivial (fun _ => rfl) fun r hr => ?_
    cases r with
    | none => exact hrest
    | some tx =>
      refine flight_sources (fun it hit => ?_) (fun _ => rfl) fun _ _ => ?_
      · rw [countCacheKey_injective (hit.trans ((hr tx rfl).trans hitem.symm))]
        exact hcount
      · exact flight_sources trivial (fun _ => rfl) fun _ _ => hrest

/-- A successful result has a count for every item that the call has seen. -/
def AllAnswered (items : List Item) (g : CountLog)
    (result : Except AppError (List BatchCountResult)) : Prop :=
  ∀ results, result = .ok results → Counted (Seen g) items results

theorem dropReceivers_sources {α : Type} {Q : CountLog → α → Prop} (rxs : List (CacheKey × Receiver))
    {f : Unit → Svc α} (hf : (countSources cfg).Obeys Q g (f ())) :
    (countSources cfg).Obeys Q g ((dropReceivers rxs).bind f) := by
  induction rxs with
  | nil => exact hf
  | cons x rxs ih => exact flight_sources trivial (fun _ => rfl) fun _ _ => ih

theorem removeLoop_sources {α : Type} {Q : CountLog → α → Prop} (keys : List CacheKey)
    {f : Unit → Svc α} (hf : (countSources cfg).Obeys Q g (f ())) :
    (countSources cfg).Obeys Q g ((removeLoop keys).bind f) := by
  induction keys with
  | nil => exact hf
  | cons key keys ih =>
    have hassoc : (removeLoop (key :: keys)).bind f =
        (removePending key).bind fun _ => (removeLoop keys).bind f := Prog.bind_assoc _ _ _
    rw [hassoc]
    exact removePending_sources key ih

theorem followerLoop_sources (htracked : Tracked items missing) (rxs : List (CacheKey × Receiver))
    (hg : g.reads = true) (hphase : g.phase = .outside)
    (hmissing : ∀ x ∈ rxs, x.1 ∈ missing.keys) (hchan : ∀ x ∈ rxs, x.2.chan.1 = x.1)
    (hsubs : Subscribed g rxs)
    (hfilled : Filled (Seen g) items missing (rxs.map Prod.fst) results) :
    (countSources cfg).Obeys (AllAnswered items) g (followerLoop cfg items missing rxs results) := by
  induction rxs generalizing g results with
  | nil =>
    rintro results' hresults
    rw [← Except.ok.inj hresults]
    exact hfilled.counted
  | cons x rxs ih =>
    obtain ⟨key, rx⟩ := x
    obtain ⟨item, hfirst, hitem⟩ := htracked.firstItem (hmissing (key, rx) List.mem_cons_self)
    have hkey : rx.chan.1 = countCacheKey item := (hchan (key, rx) List.mem_cons_self).trans hitem.symm
    -- once the key has a count the loop goes on
    have hnext : ∀ (g' : CountLog) (count : I64), LogGrows g g' → Seen g' item count →
        (countSources cfg).Obeys (AllAnswered items) g' (followerLoop cfg items missing rxs
          (setCounts results (missing.positions key) count)) := by
      intro g' count hgrows hseen
      refine ih hgrows.reads (hgrows.phase.trans hphase)
        (fun y hy => hmissing y (List.mem_cons_of_mem _ hy))
        (fun y hy => hchan y (List.mem_cons_of_mem _ hy))
        (fun y hy => hgrows.subs _ (hsubs y (List.mem_cons_of_mem _ hy))) ?_
      exact (hfilled.mono (fun _ _ h => h.grows hgrows) fun _ h => h).setCounts htracked hitem hseen
    refine (obeys_grows hg (awaitSharedCount_sources (hsubs _ List.mem_cons_self) hkey)).bind ?_
    rintro g' shared ⟨hgrows, hseen⟩
    cases shared with
    | some count => exact flight_sources trivial (fun _ => rfl) fun _ _ => hnext g' count hgrows (hseen count rfl)
    | none =>
      simp only [hfirst]
      refine (obeys_grows hgrows.reads (getCount_sources (hgrows.phase.trans hphase))).bind ?_
      rintro g'' result ⟨hgrows', hresult⟩
      cases result with
      | error error => exact dropReceivers_sources _ fun results h => by cases h
      | ok count =>
        have hcount := hresult count rfl
        refine (writeCount_sources (Q := fun g _ => g = g'') hcount rfl).bind ?_
        rintro g₃ - rfl
        exact flight_sources trivial (fun _ => rfl) fun _ _ =>
          hnext _ count (hgrows.trans hgrows') ⟨.database, hcount⟩

/-- The part after the election. -/
theorem fetchMissing_sources {visited : List CacheKey} {e : Election}
    (htracked : Tracked items missing) (hg : g.reads = true) (hphase : g.phase = .outside)
    (hvisited : visited.Perm missing.keys) (he : Elected items missing visited e)
    (hsubs : Subscribed g e.followerRxs)
    (hfilled : Filled (Seen g) items missing missing.keys results) :
    (countSources cfg).Obeys (AllAnswered items) g (fetchMissing cfg items missing results e) := by
  have hmem : ∀ key ∈ visited, key ∈ missing.keys := fun key hkey => hvisited.mem_iff.mp hkey
  have hsplit : ∀ key ∈ missing.keys, key ∈ e.leaderKeys ++ e.followerRxs.map Prod.fst :=
    fun key hkey => he.sorted.mem_iff.mpr (hvisited.mem_iff.mpr hkey)
  have hfollow : ∀ (g' : CountLog) (results : List BatchCountResult), LogGrows g g' →
      Filled (Seen g') items missing (e.followerRxs.map Prod.fst) results →
      (countSources cfg).Obeys (AllAnswered items) g'
        (followerLoop cfg items missing e.followerRxs results) := by
    refine fun g' results hgrows hfilled => followerLoop_sources htracked _ hgrows.reads
      (hgrows.phase.trans hphase) (fun x hx => hmem _ ?_) he.chan
      (fun x hx => hgrows.subs _ (hsubs x hx)) hfilled
    exact he.sorted.mem_iff.mp (List.mem_append_right _ (List.mem_map.mpr ⟨x, hx, rfl⟩))
  unfold fetchMissing
  split_ifs with hfetch
  · refine hfollow g results (.refl hg) (hfilled.mono (fun _ _ h => h) fun key hkey => ?_)
    have hmem' := hsplit key hkey
    rwa [he.leaderKeys_nil htracked hmem hfetch, List.nil_append] at hmem'
  · unfold Repositories.batchGetCounts
    rw [if_neg hfetch]
    have hasks : g.asks cfg (.db (.batchGetCounts e.toFetch)) :=
      ⟨by rw [hphase]; trivial, fun _ => trivial⟩
    refine ⟨hasks, ?_⟩
    rintro (error | rows) g' ⟨rfl, -⟩
    · exact removeLoop_sources _ (dropReceivers_sources _ fun results h => by cases h)
    · have hgrows := logGrows_next hg hasks (.ok rows)
      refine (leaderLoop_sources e.leaderKeys htracked (fun key hkey => ?_)
        (hfilled.mono (fun _ _ h => h.grows hgrows) hsplit) fun e he => by cases he).bind ?_
      · obtain ⟨item, hfirst, hitem⟩ := htracked.firstItem
          (hmem key (he.sorted.mem_iff.mp (List.mem_append_left _ hkey)))
        exact ⟨item, hfirst, hitem, Or.inr ⟨rfl, he.mem_toFetch hkey hfirst, rfl⟩⟩
      · rintro g' filled ⟨rfl, hfilled', hentries⟩
        refine (setMany_sources (Q := fun g'' _ => g'' = _) hentries rfl).bind ?_
        rintro g'' - rfl
        exact hfollow _ _ hgrows hfilled'

theorem batchCounts_sources (cfg : Config) (items : List Item) :
    (countSources cfg).Obeys (AllAnswered items) (.fresh true) (batchCounts cfg items) := by
  unfold batchCounts
  split_ifs
  · exact fun results h => by cases h
  · refine (obeys_grows rfl (mget_sources _ rfl)).bind ?_
    rintro g cached ⟨hgrows, hseen⟩
    have htracked := splitCached_tracked cached items
    have hfilled : Filled (Seen g) items (splitCached cached 0 items [] []).2
        (splitCached cached 0 items [] []).2.keys (splitCached cached 0 items [] []).1 := by
      refine splitCached_filled fun i item hi count hcount => ?_
      obtain ⟨text, htext, hparse⟩ := Option.bind_eq_some_iff.mp hcount
      exact hseen i _ (by rw [List.getElem?_map, hi]; rfl) item count text htext ⟨rfl, hparse⟩
    show (countSources cfg).Obeys _ g (if _ then _ else _)
    split_ifs with hnil
    · rintro results hresults
      rw [← Except.ok.inj hresults]
      rw [hnil] at hfilled
      exact hfilled.counted
    · refine ⟨trivial, ?_⟩
      rintro order g' ⟨rfl, -⟩
      have hperm := shuffle_perm order (splitCached cached 0 items [] []).2.keys
      refine (electLoop_sources _ hgrows.reads elected_nil fun x hx => by cases hx).bind ?_
      rintro g' e ⟨hgrows', he, hsubs⟩
      have hall := hgrows.trans hgrows'
      exact fetchMissing_sources htracked hall.reads hall.phase (by simpa using hperm) he hsubs
        (hfilled.mono (fun _ _ h => h.grows hgrows') fun _ h => h)

end Readers

end SocialApi.Services
