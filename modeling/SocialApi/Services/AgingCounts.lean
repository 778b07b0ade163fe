import SocialApi.Cluster
import SocialApi.Services.LikeQueries
import SocialApi.Services.WriterSources
import SocialApi.Repositories.WritePath

/-!
# Counts and their ages

A count goes from the database to Redis, from there to the L1 of another replica and to
the response, or from a leader to its followers, and each hop has its own delay: a call
takes at most `D`, an entry of Redis is served for `cache_ttl_like_counts`, one of L1 for
`local_cache_ttl_ms`. What a call has from a cache it never writes back to Redis, so that
no hop is taken twice.

* `AgeInv`: how old a count can be, by the place it is in, with a lemma for each kind of operation.
-/

namespace SocialApi.Services

open SocialApi.Concurrent SocialApi.Postgres SocialApi.PendingFetches SocialApi.Repositories

/-! ## The calls -/

/-- The calls that read or write counts. -/
inductive CountCall where
  | like (userId : Uuid) (item : Item)
  | unlike (userId : Uuid) (item : Item)
  | getCount (item : Item)
  | batchCounts (items : List Item)
  deriving DecidableEq, Repr

/-- What they return. -/
inductive CountReply where
  | acted (response : LikeActionResponse)
  | counted (result : BatchCountResult)
  | batch (results : List BatchCountResult)

namespace CountCall

/-- The program of a call. -/
def prog (cfg : Config) (C : Codec) : CountCall → Svc (Except AppError CountReply)
  | like userId item => (Services.like cfg C userId item).bind fun r => .ret (r.map .acted)
  | unlike userId item => (Services.unlike cfg C userId item).bind fun r => .ret (r.map .acted)
  | getCount item => (Services.getCount cfg item).bind fun r => .ret (r.map .counted)
  | batchCounts items => (Services.batchCounts cfg items).bind fun r => .ret (r.map .batch)

/-- The call opens no transaction. -/
def reads : CountCall → Bool
  | like _ _ => false
  | unlike _ _ => false
  | getCount _ => true
  | batchCounts _ => true

/-- A reply to the call says that the item has `count` likes. -/
def Reports : CountCall → CountReply → Item → I64 → Prop
  | like _ it, .acted r, item, count => item = it ∧ count = r.count
  | unlike _ it, .acted r, item, count => item = it ∧ count = r.count
  | getCount _, .counted r, item, count => item = (r.contentType, r.contentId) ∧ count = r.count
  | batchCounts _, .batch rs, item, count =>
    ∃ r ∈ rs, item = (r.contentType, r.contentId) ∧ count = r.count
  | _, _, _, _ => False

/-- The call ends outside a transaction, and every count it reports it has seen. -/
def Answers (k : CountCall) (g : CountLog) (result : Except AppError CountReply) : Prop :=
  g.phase = .outside ∧ ∀ reply, result = .ok reply → ∀ item count,
    k.Reports reply item count → Seen g item count

theorem sources (cfg : Config) (C : Codec) (k : CountCall) :
    (countSources cfg).Obeys k.Answers (.fresh k.reads) (k.prog cfg C) := by
  cases k with
  | like userId item =>
    refine (like_sources cfg C userId item).bind ?_
    rintro g (error | response) ⟨hphase, hresponse⟩
    · exact ⟨hphase, fun reply h => by cases h⟩
    · refine ⟨hphase, fun reply h it count hreports => ?_⟩
      obtain rfl := Except.ok.inj h
      obtain ⟨rfl, rfl⟩ := hreports
      exact hresponse response rfl
  | unlike userId item =>
    refine (unlike_sources cfg C userId item).bind ?_
    rintro g (error | response) ⟨hphase, hresponse⟩
    · exact ⟨hphase, fun reply h => by cases h⟩
    · refine ⟨hphase, fun reply h it count hreports => ?_⟩
      obtain rfl := Except.ok.inj h
      obtain ⟨rfl, rfl⟩ := hreports
      exact hresponse response rfl
  | getCount item =>
    have hvalue : (countSources cfg).Obeys (fun g r => g.phase = .outside ∧ ∀ result, r = .ok result →
        (result.contentType, result.contentId) = item ∧ Seen g item result.count) (.fresh true)
        (Services.getCount cfg item) := by
      refine (obeys_grows rfl (getCountValue_sources cfg item)).bind ?_
      rintro g (error | count) ⟨hgrows, hanswered⟩
      · exact ⟨hgrows.phase, fun result h => by cases h⟩
      · refine ⟨hgrows.phase, fun result h => ?_⟩
        obtain rfl := Except.ok.inj h
        exact ⟨rfl, hanswered count rfl⟩
    refine hvalue.bind ?_
    rintro g (error | result) ⟨hphase, hresult⟩
    · exact ⟨hphase, fun reply h => by cases h⟩
    · refine ⟨hphase, fun reply h it count hreports => ?_⟩
      obtain rfl := Except.ok.inj h
      obtain ⟨hitem, hseen⟩ := hresult result rfl
      obtain ⟨rfl, rfl⟩ := hreports
      rw [hitem]
      exact hseen
  | batchCounts items =>
    refine (obeys_grows rfl (batchCounts_sources cfg items)).bind ?_
    rintro g (error | results) ⟨hgrows, hanswered⟩
    · exact ⟨hgrows.phase, fun reply h => by cases h⟩
    · refine ⟨hgrows.phase, fun reply h it count hreports => ?_⟩
      obtain rfl := Except.ok.inj h
      obtain ⟨r, hr, rfl, rfl⟩ := hreports
      have hcounted := hanswered results rfl
      obtain ⟨n, hn, rfl⟩ := List.mem_iff_getElem.mp hr
      obtain ⟨hlen, hall⟩ := List.forall₂_iff_get.mp hcounted
      obtain ⟨hct, hcid, hseen⟩ := hall n (hlen ▸ hn) hn
      have hitem : (results[n].contentType, results[n].contentId) = items[n] :=
        Prod.ext hct hcid
      rw [hitem]
      exact hseen

end CountCall

/-! ## Times -/

section Runs

variable {ι ρ : Type}

variable [DecidableEq ι] [DecidableEq ρ]

/-- The calls on the replicas, from consistent tables, an empty Redis and replicas that have
    just started. -/
def countCalls (d : Deployment ι ρ) (C : Codec) : Pool ι (Cluster ι ρ) CountCall SvcOp SvcOp.Ans
    (Except AppError CountReply) (ClusterChoice ρ) :=
  clusterPool d (CountCall.prog d.cfg C) fun s => ∃ t, Consistent t ∧ s = Cluster.new t

/-- A configuration of these calls. -/
abbrev CountConfig (ι ρ : Type) :=
  Configuration ι (Cluster ι ρ) CountCall SvcOp SvcOp.Ans (Except AppError CountReply)

/-- A call does what it does within `D` of its start. -/
def Timely (D : ℕ) (c : CountConfig ι ρ) (a : Act ι CountCall (ClusterChoice ρ)) : Prop :=
  ∀ i x, a = .step i x → c.shared.clock ≤ c.shared.started i + D

variable (d : Deployment ι ρ) (C : Codec) (init : CountConfig ι ρ)
  (acts : List (Act ι CountCall (ClusterChoice ρ)))

/-- In the run the item had `count` likes at some time between `t - a` and `now`. -/
def Recent (now a t : ℕ) (item : Item) (count : I64) : Prop :=
  ∃ bs cs m, acts = bs ++ cs ∧ (countCalls d C).machine.run init bs = some m ∧
    m.shared.db.store.committed.totalCount item = count ∧ m.shared.clock ≤ now ∧
    t ≤ m.shared.clock + a

/-- `cache_ttl_like_counts`. -/
def Deployment.countTtl : ℕ := seconds d.cfg.cacheTtlLikeCountsSecs

/-- `l1_ttl`. -/
def Deployment.l1Ttl : ℕ := millis d.localCacheTtlMs

/-- How long before the start of the call that sees it a count was the committed one. -/
def Source.age (D : ℕ) : Source → ℕ
  | .database => 0
  | .leader => D
  | .redis => D + d.countTtl
  | .l1 => 2 * D + d.countTtl + d.l1Ttl

/-- Where counts are, and how old they can be there: in the log of a running call, under a key
    of L1 or Redis, on a channel for the calls that have yet to read it. -/
structure AgeInv (D : ℕ) (s : Cluster ι ρ) (γ : ι → Option CountLog) : Prop where
  db : DbInv s.db (phaseOf fun i => (γ i).map CountLog.phase)
  keyed : ∀ r, Keyed (s.flights r)
  times : ∀ i g, γ i = some g → s.started i ≤ s.stepped i ∧ s.stepped i ≤ s.started i + D ∧
    s.stepped i ≤ s.clock
  logs : ∀ i g source item count, γ i = some g → g.has source item count →
    Recent d C init acts (s.stepped i) (source.age d D) (s.started i) item count
  l1 : ∀ r key text item count, s.l1 r key = some text → Tells key text item count →
    Recent d C init acts s.clock (Source.l1.age d D) (s.l1Until r key) item count
  redis : ∀ key text item count, s.redis key = some text → Tells key text item count →
    Recent d C init acts s.clock (Source.redis.age d D) (s.redisUntil key) item count
  ready : ∀ j g, γ j = some g → ∀ rx ∈ g.ready, rx ∈ g.subs
  chans : ∀ j g rx ch item count, γ j = some g → rx ∈ g.subs →
    (s.flights (d.replica j)).chans rx.chan = some ch → countCacheKey item = rx.chan.1 →
    ch.value = some count → ch.version ≠ rx.seen ∨ rx ∈ g.ready →
    Recent d C init acts s.clock D (s.started j) item count

section Step

variable {d C init acts} {D : ℕ} {s : Cluster ι ρ} {γ : ι → Option CountLog} {i : ι}
  {g g' : CountLog} {item : Item} {count : I64} {r : ρ}

/-- Later, or with more to spare. -/
theorem Recent.mono {now now' a a' t t' : ℕ} (h : Recent d C init acts now a t item count)
    (hnow : now ≤ now') (ht : t' + a ≤ t + a') : Recent d C init acts now' a' t' item count := by
  obtain ⟨bs, cs, m, hsplit, hrun, hcount, hm, hmt⟩ := h
  exact ⟨bs, cs, m, hsplit, hrun, hcount, hm.trans hnow, by omega⟩

omit [DecidableEq ι] [DecidableEq ρ] in
theorem view_l1 {key : CacheKey} {text : String} (h : (s.view r).cache.l1 key = some text) :
    s.l1 r key = some text ∧ s.clock ≤ s.l1Until r key := by
  have h : (if s.clock ≤ s.l1Until r key then s.l1 r key else none) = some text := h
  split_ifs at h with htime
  exact ⟨h, htime⟩

omit [DecidableEq ι] [DecidableEq ρ] in
theorem view_redis {key : CacheKey} {text : String} (h : (s.view r).cache.redis key = some text) :
    s.redis key = some text ∧ s.clock ≤ s.redisUntil key := by
  have h : (if s.clock ≤ s.redisUntil key then s.redis key else none) = some text := h
  split_ifs at h with htime
  exact ⟨h, htime⟩

/-- Another call's log and times, or the ones of the call itself. -/
theorem log_update {j : ι} {g₁ : CountLog}
    (h : Function.update γ i (some g') j = some g₁) : (j = i ∧ g₁ = g') ∨ (j ≠ i ∧ γ j = some g₁) := by
  by_cases hji : j = i
  · subst hji
    rw [Function.update_self] at h
    exact Or.inl ⟨rfl, (Option.some.inj h).symm⟩
  · rw [Function.update_of_ne hji] at h
    exact Or.inr ⟨hji, h⟩

/-- What a step of call `i` has to show: its log, the entries of its replica, and the channels of
    its replica. -/
theorem AgeInv.put (h : AgeInv d C init acts D s γ) (hγ : γ i = some g) {o : SvcOp} {x : SvcChoice}
    {w : World ι} (htimely : s.clock ≤ s.started i + D)
    (hdb : DbInv w.db (Function.update (phaseOf fun i => (γ i).map CountLog.phase) i g'.phase))
    (hkeyed : Keyed w.flights)
    (hlog : ∀ source item count, g'.has source item count →
      Recent d C init acts s.clock (source.age d D) (s.started i) item count)
    (hl1 : ∀ key text item count, w.cache.l1 key = some text → Tells key text item count →
      Recent d C init acts s.clock (Source.l1.age d D) (s.l1UntilAfter d (d.replica i) o key)
        item count)
    (hredis : ∀ key text item count, w.cache.redis key = some text → Tells key text item count →
      Recent d C init acts s.clock (Source.redis.age d D) (s.redisUntilAfter o x key) item count)
    (hready : ∀ rx ∈ g'.ready, rx ∈ g'.subs)
    (hchans : ∀ j g₁ rx ch item count, Function.update γ i (some g') j = some g₁ → rx ∈ g₁.subs →
      d.replica j = d.replica i → w.flights.chans rx.chan = some ch →
      countCacheKey item = rx.chan.1 → ch.value = some count →
      ch.version ≠ rx.seen ∨ rx ∈ g₁.ready →
      Recent d C init acts s.clock D (s.started j) item count) :
    AgeInv d C init acts D (s.put d (d.replica i) i o x w) (Function.update γ i (some g')) := by
  have hstart : s.started i ≤ s.clock := (h.times i g hγ).1.trans (h.times i g hγ).2.2
  refine ⟨?_, fun r => ?_, fun j g₁ hj => ?_, fun j g₁ source item count hj hhas => ?_,
    fun r key text item count hl ht => ?_, hredis, fun j g₁ hj rx hrx => ?_,
    fun j g₁ rx ch item count hj hrx hch hitem hv hseen => ?_⟩
  · rw [phaseOf_map_update]
    exact hdb
  · show Keyed (Function.update s.flights (d.replica i) w.flights r)
    by_cases hr : r = d.replica i
    · rw [hr, Function.update_self]; exact hkeyed
    · rw [Function.update_of_ne hr]; exact h.keyed r
  · show s.started j ≤ Function.update s.stepped i s.clock j ∧
      Function.update s.stepped i s.clock j ≤ s.started j + D ∧
        Function.update s.stepped i s.clock j ≤ s.clock
    rcases log_update hj with ⟨rfl, -⟩ | ⟨hji, hj⟩
    · rw [Function.update_self]
      exact ⟨hstart, htimely, le_refl _⟩
    · rw [Function.update_of_ne hji]
      exact h.times j g₁ hj
  · show Recent d C init acts (Function.update s.stepped i s.clock j) _ (s.started j) item count
    rcases log_update hj with ⟨rfl, rfl⟩ | ⟨hji, hj⟩
    · rw [Function.update_self]
      exact hlog source item count hhas
    · rw [Function.update_of_ne hji]
      exact h.logs j g₁ source item count hj hhas
  · have hl : Function.update s.l1 (d.replica i) w.cache.l1 r key = some text := hl
    show Recent d C init acts s.clock _ (Function.update s.l1Until (d.replica i)
      (s.l1UntilAfter d (d.replica i) o) r key) item count
    by_cases hr : r = d.replica i
    · subst hr
      rw [Function.update_self] at hl ⊢
      exact hl1 key text item count hl ht
    · rw [Function.update_of_ne hr] at hl ⊢
      exact h.l1 r key text item count hl ht
  · rcases log_update hj with ⟨rfl, rfl⟩ | ⟨-, hj⟩
    · exact hready rx hrx
    · exact h.ready j g₁ hj rx hrx
  · have hch : (Function.update s.flights (d.replica i) w.flights (d.replica j)).chans rx.chan =
        some ch := hch
    by_cases hr : d.replica j = d.replica i
    · rw [hr, Function.update_self] at hch
      exact hchans j g₁ rx ch item count hj hrx hr hch hitem hv hseen
    · rw [Function.update_of_ne hr] at hch
      rcases log_update hj with ⟨rfl, -⟩ | ⟨-, hj⟩
      · exact absurd rfl hr
      · exact h.chans j g₁ rx ch item count hj hrx hch hitem hv hseen

/-- What a call has seen is at most this old at the time of its step. -/
theorem AgeInv.log_now (h : AgeInv d C init acts D s γ) (hγ : γ i = some g) {source : Source}
    (hhas : g.has source item count) :
    Recent d C init acts s.clock (source.age d D) (s.started i) item count :=
  (h.logs i g source item count hγ hhas).mono (h.times i g hγ).2.2 (le_refl _)

/-- The channels of a replica that an operation leaves alone. -/
theorem AgeInv.chans_same (h : AgeInv d C init acts D s γ) (hγ : γ i = some g)
    (hsubs : g'.subs = g.subs) (hready : g'.ready = g.ready) :
    ∀ j g₁ rx ch item count, Function.update γ i (some g') j = some g₁ → rx ∈ g₁.subs →
      d.replica j = d.replica i → (s.flights (d.replica i)).chans rx.chan = some ch →
      countCacheKey item = rx.chan.1 → ch.value = some count →
      ch.version ≠ rx.seen ∨ rx ∈ g₁.ready →
      Recent d C init acts s.clock D (s.started j) item count := by
  intro j g₁ rx ch item count hj hrx hr hch hitem hv hseen
  rw [← hr] at hch
  rcases log_update hj with ⟨rfl, rfl⟩ | ⟨-, hj⟩
  · rw [hsubs] at hrx
    rw [hready] at hseen
    exact h.chans j g rx ch item count hγ hrx hch hitem hv hseen
  · exact h.chans j g₁ rx ch item count hj hrx hch hitem hv hseen

/-- The entries a replica finds. -/
theorem AgeInv.l1_view (h : AgeInv d C init acts D s γ) {key : CacheKey} {text : String}
    (hl : (s.view r).cache.l1 key = some text) (ht : Tells key text item count) :
    Recent d C init acts s.clock (Source.l1.age d D) (s.l1Until r key) item count :=
  h.l1 r key text item count (view_l1 hl).1 ht

theorem AgeInv.redis_view (h : AgeInv d C init acts D s γ) {key : CacheKey} {text : String}
    (hl : (s.view r).cache.redis key = some text) (ht : Tells key text item count) :
    Recent d C init acts s.clock (Source.redis.age d D) (s.redisUntil key) item count :=
  h.redis key text item count (view_redis hl).1 ht

/-- An operation that no count has to do with. -/
theorem AgeInv.quiet (h : AgeInv d C init acts D s γ) (hγ : γ i = some g) {o : SvcOp} {x : SvcChoice}
    {w : World ι} (htimely : s.clock ≤ s.started i + D) (hdb : w.db = s.db)
    (hcache : w.cache = (s.view (d.replica i)).cache) (hflights : w.flights = s.flights (d.replica i))
    (hl1 : s.l1UntilAfter d (d.replica i) o = s.l1Until (d.replica i))
    (hredis : s.redisUntilAfter o x = s.redisUntil) :
    AgeInv d C init acts D (s.put d (d.replica i) i o x w) (Function.update γ i (some g)) := by
  have hphase : (phaseOf fun i => (γ i).map CountLog.phase) i = g.phase := by simp [phaseOf, hγ]
  refine h.put hγ htimely ?_ (hflights ▸ h.keyed _) (fun source it c hhas => h.log_now hγ hhas)
    (fun key text it c hl ht => ?_) (fun key text it c hl ht => ?_) (h.ready i g hγ)
    (hflights ▸ h.chans_same hγ rfl rfl)
  · rw [← hphase, Function.update_eq_self, hdb]
    exact h.db
  · rw [hcache] at hl
    rw [hl1]
    exact h.l1_view hl ht
  · rw [hcache] at hl
    rw [hredis]
    exact h.redis_view hl ht

section CacheOp

variable {o : Cache.Op} {x : Cache.Choice} {cache' : Cache.CacheState} {a : o.Ans}

/-- What a call has seen after an operation of the cache: an entry that it finds has not expired. -/
theorem AgeInv.log_cacheOp (h : AgeInv d C init acts D s γ) (hγ : γ i = some g)
    (hs : Cache.handle (s.view (d.replica i)).cache o x = some (cache', a)) {source : Source}
    (hhas : (g.next (.cache o) a).has source item count) :
    Recent d C init acts s.clock (source.age d D) (s.started i) item count := by
  have hstart : s.started i ≤ s.clock := (h.times i g hγ).1.trans (h.times i g hγ).2.2
  have hold : g.has source item count →
      Recent d C init acts s.clock (source.age d D) (s.started i) item count := h.log_now hγ
  have hredis : ∀ key text, (s.view (d.replica i)).cache.lookup .redis key = some text →
      Tells key text item count →
        Recent d C init acts s.clock (Source.redis.age d D) (s.started i) item count := by
    intro key text hl ht
    have huntil := (view_redis hl).2
    exact (h.redis_view hl ht).mono (le_refl _) (by omega)
  cases o with
  | l1Get key =>
    rcases hhas with hhas | ⟨rfl, text, rfl, ht⟩
    · exact hold hhas
    · have hl : (s.view (d.replica i)).cache.lookup .l1 key = some text :=
        Cache.handle_shows hs ⟨rfl, rfl, rfl⟩
      have huntil := (view_l1 hl).2
      exact (h.l1_view hl ht).mono (le_refl _) (by omega)
  | redisGet key =>
    rcases hhas with hhas | ⟨rfl, text, rfl, ht⟩
    · exact hold hhas
    · exact hredis key text (Cache.handle_shows hs ⟨rfl, rfl, rfl⟩) ht
  | redisMget keys =>
    rcases hhas with hhas | ⟨rfl, texts, rfl, key, text, hmem, ht⟩
    · exact hold hhas
    · exact hredis key text (Cache.handle_shows hs ⟨rfl, texts, rfl, hmem⟩) ht
  | _ => exact hold hhas

/-- The entries of L1 after an operation of the cache: a new one holds what the call has seen. -/
theorem AgeInv.l1_cacheOp (h : AgeInv d C init acts D s γ) (hγ : γ i = some g)
    (htimely : s.clock ≤ s.started i + D) (hasks : g.asks d.cfg (.cache o))
    (hs : Cache.handle (s.view (d.replica i)).cache o x = some (cache', a)) {key : CacheKey}
    {text : String} (hl : cache'.l1 key = some text) (ht : Tells key text item count) :
    Recent d C init acts s.clock (Source.l1.age d D) (s.l1UntilAfter d (d.replica i) (.cache o) key)
      item count := by
  have hold : o.store ≠ some (.l1, key, text) → (s.view (d.replica i)).cache.l1 key = some text := by
    intro hne
    rcases Cache.handle_lookup hs .l1 key with hsame | hnone | ⟨v, hv, hnew⟩
    · exact hsame.symm.trans hl
    · exact absurd (hnone.symm.trans hl) (Option.some_ne_none _).symm
    · obtain rfl := Option.some.inj (hnew.symm.trans hl)
      exact absurd hv hne
  cases o with
  | l1Insert key' text' =>
    show Recent d C init acts s.clock _ (Function.update (s.l1Until (d.replica i)) key'
      (s.clock + millis d.localCacheTtlMs) key) item count
    by_cases hkey : key = key'
    · subst hkey
      have hworks : x ≠ .fail := by
        rintro rfl
        cases hs
      have htext : cache'.lookup .l1 key = some text' := Cache.handle_store hs rfl hworks
      obtain rfl := Option.some.inj (htext.symm.trans hl)
      rw [Function.update_self]
      rcases hasks item count ht with hhas | hhas
      · refine (h.log_now hγ hhas).mono (le_refl _) ?_
        simp only [Source.age, Deployment.l1Ttl]
        omega
      · refine (h.log_now hγ hhas).mono (le_refl _) ?_
        simp only [Source.age, Deployment.l1Ttl]
        omega
    · rw [Function.update_of_ne hkey]
      exact h.l1_view (hold (by simp [Cache.Op.store, Ne.symm hkey])) ht
  | _ => exact h.l1_view (hold (by simp [Cache.Op.store])) ht

/-- The entries of Redis after an operation of the cache: a command that fails stores nothing. -/
theorem AgeInv.redis_cacheOp (h : AgeInv d C init acts D s γ) (hγ : γ i = some g)
    (htimely : s.clock ≤ s.started i + D) (hasks : g.asks d.cfg (.cache o))
    (hs : Cache.handle (s.view (d.replica i)).cache o x = some (cache', a)) {key : CacheKey}
    {text : String} (hl : cache'.redis key = some text) (ht : Tells key text item count) :
    Recent d C init acts s.clock (Source.redis.age d D)
      (s.redisUntilAfter (.cache o) (.cache x) key) item count := by
  have hold : o.store ≠ some (.redis, key, text) ∨ x = .fail →
      (s.view (d.replica i)).cache.redis key = some text := by
    intro hne
    rcases Cache.handle_lookup hs .redis key with hsame | hnone | ⟨v, hv, hnew⟩
    · exact hsame.symm.trans hl
    · exact absurd (hnone.symm.trans hl) (Option.some_ne_none _).symm
    · obtain rfl := Option.some.inj (hnew.symm.trans hl)
      rcases hne with hne | rfl
      · exact absurd hv hne
      · cases o with
        | redisSetEx key' text' ttl => cases hs; exact hl
        | _ => cases hv
  cases o with
  | redisSetEx key' text' ttl =>
    cases x with
    | ok =>
      show Recent d C init acts s.clock _ (Function.update s.redisUntil key'
        (s.clock + seconds ttl) key) item count
      by_cases hkey : key = key'
      · subst hkey
        have htext : cache'.lookup .redis key = some text' := Cache.handle_store hs rfl (by simp)
        obtain rfl := Option.some.inj (htext.symm.trans hl)
        rw [Function.update_self]
        obtain ⟨httl, hhas⟩ := hasks item ht.1
        refine (h.log_now hγ (hhas count ht)).mono (le_refl _) ?_
        simp only [Source.age, Deployment.countTtl, httl]
        omega
      · rw [Function.update_of_ne hkey]
        exact h.redis_view (hold (Or.inl (by simp [Cache.Op.store, Ne.symm hkey]))) ht
    | fail => exact h.redis_view (hold (Or.inr rfl)) ht
    | removed keys => cases hs
  | _ => exact h.redis_view (hold (Or.inl (by simp [Cache.Op.store]))) ht

/-- An operation of the cache. -/
theorem AgeInv.cacheOp (h : AgeInv d C init acts D s γ) (hγ : γ i = some g)
    (htimely : s.clock ≤ s.started i + D) (hasks : g.asks d.cfg (.cache o))
    (hs : Cache.handle (s.view (d.replica i)).cache o x = some (cache', a)) :
    AgeInv d C init acts D (s.put d (d.replica i) i (.cache o) (.cache x)
        { s.view (d.replica i) with cache := cache' })
      (Function.update γ i (some (g.next (.cache o) a))) := by
  have hphase : (phaseOf fun i => (γ i).map CountLog.phase) i = g.phase := by simp [phaseOf, hγ]
  have hlog : g.next (.cache o) a = { g with has := (g.next (.cache o) a).has } := by
    cases o <;> rfl
  rw [hlog]
  refine h.put hγ htimely ?_ (h.keyed _) (fun source it c hhas => h.log_cacheOp hγ hs hhas)
    (fun key text it c hl ht => h.l1_cacheOp hγ htimely hasks hs hl ht)
    (fun key text it c hl ht => h.redis_cacheOp hγ htimely hasks hs hl ht) (h.ready i g hγ)
    (h.chans_same hγ rfl rfl)
  show DbInv s.db (Function.update _ i g.phase)
  rw [← hphase, Function.update_eq_self]
  exact h.db

end CacheOp

section FlightOp

variable {o : PendingFetches.Op} {y : PendingFetches.Choice} {flights' : Flights ι} {a : o.Ans}

/-- What a call has seen after an operation on the pending fetches. -/
theorem AgeInv.log_flightOp (h : AgeInv d C init acts D s γ) (hγ : γ i = some g)
    (hasks : g.asks d.cfg (.flight o))
    (hs : PendingFetches.handle (s.flights (d.replica i)) i o y = some (flights', a))
    {source : Source} (hhas : (g.next (.flight o) a).has source item count) :
    Recent d C init acts s.clock (source.age d D) (s.started i) item count := by
  have hold : g.has source item count →
      Recent d C init acts s.clock (source.age d D) (s.started i) item count := h.log_now hγ
  cases o with
  | entry key keep => cases a <;> exact hold hhas
  | changed rx => cases a <;> exact hold hhas
  | borrow rx =>
    rcases hhas with hhas | ⟨rfl, hitem, hv⟩
    · exact hold hhas
    · cases hs
      obtain ⟨ch, hch, hv⟩ := Option.bind_eq_some_iff.mp hv
      exact h.chans i g rx ch item count hγ (h.ready i g hγ rx hasks) hch hitem hv (Or.inr hasks)
  | _ => exact hold hhas

/-- A call waits for what it has subscribed to. -/
theorem AgeInv.ready_flightOp (h : AgeInv d C init acts D s γ) (hγ : γ i = some g)
    (hasks : g.asks d.cfg (.flight o)) {rx : Receiver} (hrx : rx ∈ (g.next (.flight o) a).ready) :
    rx ∈ (g.next (.flight o) a).subs := by
  have hold : rx ∈ g.ready → rx ∈ g.subs := h.ready i g hγ rx
  cases o with
  | entry key keep =>
    cases a with
    | leader id => exact hold hrx
    | follower rx' => exact List.mem_cons_of_mem _ (hold hrx)
  | changed rx' =>
    cases a with
    | value =>
      rcases List.mem_cons.mp hrx with rfl | hrx
      · exact hasks
      · exact hold hrx
    | closed => exact hold hrx
    | timedOut => exact hold hrx
  | _ => exact hold hrx

/-- What the call itself can read from a channel that is as it was; what it knows of it may be
    new. -/
theorem AgeInv.own_flightOp (h : AgeInv d C init acts D s γ) (hγ : γ i = some g)
    (hs : PendingFetches.handle (s.flights (d.replica i)) i o y = some (flights', a))
    {rx : Receiver} {ch : Channel ι} (hrx : rx ∈ (g.next (.flight o) a).subs)
    (hch : (s.flights (d.replica i)).chans rx.chan = some ch)
    (hitem : countCacheKey item = rx.chan.1) (hv : ch.value = some count)
    (hseen : ch.version ≠ rx.seen ∨ rx ∈ (g.next (.flight o) a).ready) :
    Recent d C init acts s.clock D (s.started i) item count := by
  have hold : rx ∈ g.subs → ch.version ≠ rx.seen ∨ rx ∈ g.ready →
      Recent d C init acts s.clock D (s.started i) item count :=
    fun hrx hseen => h.chans i g rx ch item count hγ hrx hch hitem hv hseen
  cases o with
  | entry key keep =>
    cases a with
    | leader id => exact hold hrx hseen
    | follower rx' =>
      rcases List.mem_cons.mp hrx with rfl | hrx
      · obtain ⟨-, ch₁, hch₁, hseen₁⟩ := ((h.keyed _).entry hs).2 _ rfl
        obtain rfl := Option.some.inj (hch.symm.trans hch₁)
        have hready := hseen.resolve_left fun hne => hne hseen₁.symm
        exact hold (h.ready i g hγ _ hready) (Or.inr hready)
      · exact hold hrx hseen
  | changed rx' =>
    cases a with
    | value =>
      by_cases hrx' : rx = rx'
      · subst hrx'
        obtain ⟨ch₁, hch₁, hne⟩ := changed_value hs
        obtain rfl := Option.some.inj (hch.symm.trans hch₁)
        exact hold hrx (Or.inl hne)
      · refine hold hrx (hseen.imp_right fun hready => ?_)
        exact (List.mem_cons.mp hready).resolve_left hrx'
    | closed => exact hold hrx hseen
    | timedOut => exact hold hrx hseen
  | _ => exact hold hrx hseen

/-- An operation on the pending fetches. -/
theorem AgeInv.flightOp (h : AgeInv d C init acts D s γ) (hγ : γ i = some g) {x : SvcChoice}
    (htimely : s.clock ≤ s.started i + D) (hasks : g.asks d.cfg (.flight o))
    (hs : PendingFetches.handle (s.flights (d.replica i)) i o y = some (flights', a)) :
    CountLog.Fits (.flight o) a ∧
      AgeInv d C init acts D (s.put d (d.replica i) i (.flight o) x
        { s.view (d.replica i) with flights := flights' })
      (Function.update γ i (some (g.next (.flight o) a))) := by
  have hphase : (phaseOf fun i => (γ i).map CountLog.phase) i = g.phase := by simp [phaseOf, hγ]
  have hsame : (g.next (.flight o) a).phase = g.phase := by
    cases o with
    | entry key keep => cases a <;> rfl
    | changed rx => cases a <;> rfl
    | _ => rfl
  refine ⟨?_, h.put hγ htimely ?_ ((h.keyed _).handle hs)
    (fun source it c hhas => h.log_flightOp hγ hasks hs hhas)
    (fun key text it c hl ht => h.l1_view hl ht) (fun key text it c hl ht => ?_)
    (fun rx hrx => h.ready_flightOp hγ hasks hrx)
    fun j g₁ rx ch it c hj hrx hr hch hitem hv hseen => ?_⟩
  · cases o with
    | entry key keep =>
      obtain ⟨hleader, hfollower⟩ := (h.keyed _).entry hs
      cases a with
      | leader id => exact hleader id rfl
      | follower rx => exact (hfollower rx rfl).1
    | remove key => exact (h.keyed _).remove hs
    | _ => trivial
  · rw [hsame, ← hphase, Function.update_eq_self]
    exact h.db
  · have hredis : s.redisUntilAfter (.flight o) x = s.redisUntil := by cases x <;> rfl
    rw [hredis]
    exact h.redis_view hl ht
  · rcases handle_chan hs hch with ⟨ch₀, hch₀, hval, hver⟩ | hnone | ⟨ch₀, c', rfl, hch₀, hval, -⟩
    · rw [hval] at hv
      rw [hver] at hseen
      rcases log_update hj with ⟨rfl, rfl⟩ | ⟨-, hj⟩
      · exact h.own_flightOp hγ hs hrx hch₀ hitem hv hseen
      · exact h.chans j g₁ rx ch₀ it c hj hrx (hr ▸ hch₀) hitem hv hseen
    · rw [hnone] at hv
      cases hv
    · obtain rfl := Option.some.inj (hval.symm.trans hv)
      have hstart : s.started j ≤ s.clock := by
        rcases log_update hj with ⟨rfl, -⟩ | ⟨-, hj⟩
        · exact (h.times j g hγ).1.trans (h.times j g hγ).2.2
        · exact (h.times j g₁ hj).1.trans (h.times j g₁ hj).2.2
      refine (h.log_now hγ (hasks it hitem)).mono (le_refl _) ?_
      simp only [Source.age]
      omega

end FlightOp

/-- A statement: what it reads is committed now, and what it commits is from now on. -/
theorem AgeInv.statement (h : AgeInv d C init acts D s γ) (hγ : γ i = some g) {q : DbOp}
    {x : SvcChoice} {y : DbChoice} {db' : DbState ι} {errors : List ι} {a : q.Ans}
    (htimely : s.clock ≤ s.started i + D) (hasks : g.phase.asks q)
    (hs : Postgres.handle s.db i q y = some (db', a))
    (hbefore : ∀ item t, t ≤ s.clock →
      Recent d C init acts s.clock 0 t item (s.db.store.committed.totalCount item))
    (hafter : ∀ item t, t ≤ s.clock →
      Recent d C init acts s.clock 0 t item (db'.store.committed.totalCount item)) :
    CountLog.Fits (.db q) a ∧
      AgeInv d C init acts D (s.put d (d.replica i) i (.db q) x
        { s.view (d.replica i) with db := db', dbErrors := errors })
      (Function.update γ i (some (g.next (.db q) a))) := by
  have hstart : s.started i ≤ s.clock := (h.times i g hγ).1.trans (h.times i g hγ).2.2
  have hphase : (phaseOf fun i => (γ i).map CountLog.phase) i = g.phase := by simp [phaseOf, hγ]
  obtain ⟨hinv, hfits⟩ := h.db.handle (by rw [hphase]; exact hasks) hs
  have hview : ((∃ userId item, q = .selectExisting userId item) ∨ ∃ item, q = .selectCount item) →
      s.db.view i = s.db.store.committed :=
    fun hq => h.db.view_of_opened (hphase.trans (Phase.opened_of_asks hasks hq))
  rw [hphase] at hinv hfits
  obtain ⟨hsubs, hready, hnext⟩ := afterDb_eq g q a
  refine ⟨?_, h.put hγ htimely ?_ (h.keyed _) (fun source it c hhas => ?_)
    (fun key text it c hl ht => h.l1_view hl ht) (fun key text it c hl ht => ?_) ?_
    (h.chans_same hγ hsubs hready)⟩
  · cases q with
    | decrementCount item => exact hfits.1
    | _ => trivial
  · show DbInv db' (Function.update _ i (g.afterDb q a).phase)
    rw [hnext]
    exact hinv
  · have hold : g.has source it c → Recent d C init acts s.clock (source.age d D) (s.started i) it c :=
      h.log_now hγ
    rcases has_afterDb hhas with hold' | ⟨rfl, hin⟩ | ⟨rfl, hcommits⟩
    · exact hold hold'
    · rw [countIn_total hs hview hin]
      exact hbefore it _ hstart
    · rw [← hphase] at hcommits
      rw [← commitsCount_total h.db hs hcommits]
      exact hafter it _ hstart
  · have hredis : s.redisUntilAfter (.db q) x = s.redisUntil := by cases x <;> rfl
    rw [hredis]
    exact h.redis_view hl ht
  · intro rx hrx
    rw [show (g.next (.db q) a).subs = g.subs from hsubs]
    rw [show (g.next (.db q) a).ready = g.ready from hready] at hrx
    exact h.ready i g hγ rx hrx

end Step

end Runs

end SocialApi.Services
