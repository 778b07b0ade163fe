import SocialApi.Services.CountSources
import SocialApi.Services.PendingLeaders

/-!
# Readers over counts that do not change

While the counts in the database stay as they are, everything that tells a count tells
the right one: the cache, the channels, and what every call has seen. So whatever the
mixture of hits, queries of its own and shared fetches, and however these end, a result
is the count of its item.

* `steadyCounts`: every successful `get_count_value` returns the count of its item, and
  every successful `batch_counts` one entry for each requested item, in request order,
  with the item's count.
-/

namespace SocialApi.Services

open SocialApi.Concurrent SocialApi.Postgres SocialApi.PendingFetches

variable {ι : Type} [DecidableEq ι]

/-- What a successful call returns when `total` has the counts. -/
def Exact (total : Item → I64) : CountRead → CountResult → Prop
  | .getCountValue item, result => ∀ answer, result = .ok answer → answer = .inl (total item)
  | .batchCounts items, result => ∀ answer, result = .ok answer →
      answer = .inr (items.map fun item => ⟨item.1, item.2, total item⟩)

/-- A call that has only seen right counts. -/
def TrueLog (total : Item → I64) (g : CountLog) : Prop :=
  g.reads = true ∧ ∀ source item count, g.has source item count → count = total item

/-- The end of a call. -/
def CountRead.Answers (k : CountRead) (g : CountLog) (result : CountResult) : Prop :=
  match k with
  | getCountValue item => ∀ answer, result = .ok answer → ∃ count, answer = .inl count ∧
      Seen g item count
  | batchCounts items => ∀ answer, result = .ok answer → ∃ results, answer = .inr results ∧
      Counted (Seen g) items results

theorem CountRead.sources (cfg : Config) (k : CountRead) :
    (countSources cfg).Obeys k.Answers (.fresh true) (k.prog cfg) := by
  cases k with
  | getCountValue item =>
    refine (getCountValue_sources cfg item).bind ?_
    rintro g (error | count) hanswered
    · exact fun answer h => by cases h
    · exact fun answer h => ⟨count, (Except.ok.inj h).symm, hanswered count rfl⟩
  | batchCounts items =>
    refine (batchCounts_sources cfg items).bind ?_
    rintro g (error | results) hanswered
    · exact fun answer h => by cases h
    · exact fun answer h => ⟨results, (Except.ok.inj h).symm, hanswered results rfl⟩

/-- A true log answers exactly. -/
theorem CountRead.Answers.exact {total : Item → I64} {k : CountRead} {g : CountLog}
    {result : CountResult} (h : k.Answers g result) (hg : TrueLog total g) : Exact total k result := by
  have hseen : ∀ item count, Seen g item count → count = total item :=
    fun item count ⟨source, hs⟩ => hg.2 source item count hs
  cases k with
  | getCountValue item =>
    intro answer hanswer
    obtain ⟨count, rfl, hcount⟩ := h answer hanswer
    rw [hseen item count hcount]
  | batchCounts items =>
    intro answer hanswer
    obtain ⟨results, rfl, hcounted⟩ := h answer hanswer
    have hexact : Counted (fun item count => count = total item) items results :=
      hcounted.imp fun item r hr => ⟨hr.1, hr.2.1, hseen item r.count hr.2.2⟩
    rw [hexact.eq_map]

/-- Everything that tells a count tells the right one. -/
structure Steady (total : Item → I64) (s : World ι) : Prop where
  db : ∀ item, s.db.store.committed.totalCount item = total item
  cache : ∀ layer key text item count, s.cache.lookup layer key = some text →
    Tells key text item count → count = total item
  keyed : Keyed s.flights
  chans : ∀ id ch item count, s.flights.chans id = some ch → countCacheKey item = id.1 →
    ch.value = some count → count = total item

section Step

variable {total : Item → I64} {cfg : Config} {s s' : World ι} {i : ι} {x : SvcChoice} {g : CountLog}

theorem TrueLog.add (hg : TrueLog total g) {source : Source} {T : Item → I64 → Prop}
    (hT : ∀ item count, T item count → count = total item) : TrueLog total (g.add source T) := by
  refine ⟨hg.1, fun source' item count h => ?_⟩
  rcases h with h | ⟨-, h⟩
  · exact hg.2 source' item count h
  · exact hT item count h

/-- A statement on the pool changes nothing, and its counts are the committed ones. -/
theorem Steady.statement (h : Steady total s) (hg : TrueLog total g) {q : DbOp} {r : q.Ans}
    (hq : ReadsOnly q) (hs : handle cfg s i (.db q) x = some (s', r)) :
    Steady total s' ∧ TrueLog total (g.next (.db q) r) := by
  obtain ⟨y, db', rfl, hdb, rfl⟩ := handle_db hs
  have hsame : db' = s.db := by
    cases y with
    | fail message => cases q <;> first | exact hq.elim | (cases hdb; rfl)
    | run now order => cases q <;> first | exact hq.elim | (cases hdb; rfl)
  have hcounts : ∀ item count, CountIn q r item count → count = total item := by
    intro item count hcount
    rw [countIn_total hdb ?_ hcount]
    · exact h.db item
    · rintro (⟨userId, item, rfl⟩ | ⟨item, rfl⟩) <;> exact hq.elim
  subst hsame
  refine ⟨⟨h.db, h.cache, h.keyed, h.chans⟩, ?_⟩
  show TrueLog total (g.afterDb q r)
  rw [afterDb_of_readsOnly hq]
  exact hg.add hcounts

/-- What is stored in the cache is right, and so is what it answers. -/
theorem Steady.cacheOp (h : Steady total s) (hg : TrueLog total g) {o : Cache.Op} {r : o.Ans}
    (hasks : g.asks cfg (.cache o)) (hs : handle cfg s i (.cache o) x = some (s', r)) :
    Steady total s' ∧ TrueLog total (g.next (.cache o) r) := by
  obtain ⟨y, cache', rfl, hcache, rfl⟩ := handle_cache hs
  have hstored : ∀ layer key text, o.store = some (layer, key, text) → ∀ item count,
      Tells key text item count → count = total item := by
    intro layer key text hstore item count ht
    cases o with
    | l1Insert key' text' =>
      cases hstore
      rcases hasks item count ht with hhas | hhas
      · exact hg.2 _ _ _ hhas
      · exact hg.2 _ _ _ hhas
    | redisSetEx key' text' ttl =>
      cases hstore
      exact hg.2 _ _ _ ((hasks item ht.1).2 count ht)
    | _ => cases hstore
  refine ⟨⟨h.db, fun layer key text item count hl ht => ?_, h.keyed, h.chans⟩, ?_⟩
  · have hl : cache'.lookup layer key = some text := hl
    rcases Cache.handle_lookup hcache layer key with hold | hnone | ⟨v, hv, hnew⟩
    · exact h.cache layer key text item count (hold.symm.trans hl) ht
    · rw [hnone] at hl; cases hl
    · obtain rfl := Option.some.inj (hnew.symm.trans hl)
      exact hstored layer key v hv item count ht
  · cases o with
    | l1Get key =>
      refine hg.add ?_
      rintro item count ⟨text, rfl, ht⟩
      exact h.cache .l1 key text item count (Cache.handle_shows hcache ⟨rfl, rfl, rfl⟩) ht
    | redisGet key =>
      refine hg.add ?_
      rintro item count ⟨text, rfl, ht⟩
      exact h.cache .redis key text item count (Cache.handle_shows hcache ⟨rfl, rfl, rfl⟩) ht
    | redisMget keys =>
      refine hg.add ?_
      rintro item count ⟨texts, rfl, key, text, hmem, ht⟩
      exact h.cache .redis key text item count
        (Cache.handle_shows hcache ⟨rfl, texts, rfl, hmem⟩) ht
    | _ => exact hg

/-- A count sent on a channel is the one of the channel's item, and so is one received. -/
theorem Steady.flightOp (h : Steady total s) (hg : TrueLog total g) {o : PendingFetches.Op}
    {r : o.Ans} (hasks : g.asks cfg (.flight o)) (hs : handle cfg s i (.flight o) x = some (s', r)) :
    Steady total s' ∧ TrueLog total (g.next (.flight o) r) ∧ CountLog.Fits (.flight o) r := by
  obtain ⟨y, flights', rfl, hflight, rfl⟩ := handle_flight hs
  refine ⟨⟨h.db, h.cache, h.keyed.handle hflight, fun id ch' item count hch' hitem hv => ?_⟩, ?_, ?_⟩
  · rcases handle_chan hflight hch' with ⟨ch, hch, hval, -⟩ | hnone | ⟨ch, c, rfl, hch, hval, -⟩
    · exact h.chans id ch item count hch hitem (hval.symm.trans hv)
    · rw [hnone] at hv; cases hv
    · obtain rfl := Option.some.inj (hval.symm.trans hv)
      exact hg.2 _ _ _ (hasks item hitem)
  · cases o with
    | entry key keep => cases r <;> exact hg
    | changed rx => cases r <;> exact hg
    | borrow rx =>
      cases hflight
      refine hg.add ?_
      rintro item count ⟨hitem, hv⟩
      obtain ⟨ch, hch, hv⟩ := Option.bind_eq_some_iff.mp hv
      exact h.chans rx.chan ch item count hch hitem hv
    | _ => exact hg
  · cases o with
    | entry key keep =>
      obtain ⟨hleader, hfollower⟩ := h.keyed.entry hflight
      cases r with
      | leader id => exact hleader id rfl
      | follower rx => exact (hfollower rx rfl).1
    | remove key => exact h.keyed.remove hflight
    | _ => trivial

end Step

/-! ## All interleavings -/

/-- The counts are `total`, in the tables and wherever a running call has one from. -/
def SteadyInv (total : Item → I64) (s : World ι) (γ : ι → Option CountLog) : Prop :=
  Steady total s ∧ ∀ i g, γ i = some g → TrueLog total g

theorem SteadyInv.step {total : Item → I64} {s s' : World ι} {γ : ι → Option CountLog} {i : ι}
    {g' : Option CountLog} (h : SteadyInv total s γ) (hs : Steady total s')
    (hg' : ∀ g, g' = some g → TrueLog total g) : SteadyInv total s' (Function.update γ i g') := by
  refine ⟨hs, fun j g hj => ?_⟩
  by_cases hji : j = i
  · subst hji
    rw [Function.update_self] at hj
    exact hg' g hj
  · rw [Function.update_of_ne hji] at hj
    exact h.2 j g hj

theorem steadyReaders_keep (cfg : Config) (total : Item → I64) :
    Pool.Keeps (countReaders (ι := ι) cfg) (countSources cfg) CountRead.Answers
      (fun _ => .fresh true) (SteadyInv total) (fun _ _ => True) where
  prog := CountRead.sources cfg
  start c i k s γ _ h _ hs := by
    cases hs
    refine h.step h.1 fun g hg => ?_
    obtain rfl := Option.some.inj hg
    exact ⟨rfl, fun _ _ _ hhas => hhas.elim⟩
  handle c i x k o f s r γ g _ h _ _ hγ hasks hs := by
    have hg := h.2 i g hγ
    have hput : ∀ g' s', Steady total s' → TrueLog total g' →
        SteadyInv total s' (Function.update γ i (some g')) := fun g' s' hs' hg' =>
      h.step hs' fun g'' he => by rw [← Option.some.inj he]; exact hg'
    have hquiet : (∃ breaker published, s = { c.shared with breaker := breaker, published := published }) →
        SteadyInv total s (Function.update γ i (some g)) := by
      rintro ⟨breaker, published, rfl⟩
      exact hput g _ ⟨h.1.db, h.1.cache, h.1.keyed, h.1.chans⟩ hg
    cases o with
    | db q =>
      have hq : ReadsOnly q := hasks.2 hg.1
      obtain ⟨hsteady, hlog⟩ := h.1.statement hg hq hs
      refine ⟨_, ⟨rfl, ?_⟩, hput _ s hsteady hlog⟩
      cases q with
      | decrementCount item => exact hq.elim
      | _ => trivial
    | cache o =>
      obtain ⟨hsteady, hlog⟩ := h.1.cacheOp hg hasks hs
      exact ⟨_, ⟨rfl, trivial⟩, hput _ s hsteady hlog⟩
    | flight o =>
      obtain ⟨hsteady, hlog, hfits⟩ := h.1.flightOp hg hasks hs
      exact ⟨_, ⟨rfl, hfits⟩, hput _ s hsteady hlog⟩
    | publish event item =>
      refine ⟨_, ⟨rfl, trivial⟩, hquiet ?_⟩
      cases x with
      | published delivered => cases hs; cases delivered <;> exact ⟨_, _, rfl⟩
      | _ => cases hs
    | _ =>
      refine ⟨_, ⟨rfl, trivial⟩, hquiet ?_⟩
      cases x <;> cases hs
      exact ⟨_, _, rfl⟩
  ret s i k γ g a h _ _ := h.step h.1 fun g hg => by cases hg
  drop c i k p s γ g _ h _ _ _ hs := by
    cases hs
    refine h.step ⟨h.1.db, h.1.cache, h.1.keyed, fun id ch' item count hch' hitem hv => ?_⟩
      fun g hg => by cases hg
    obtain ⟨ch, hch, hval, -⟩ := abandon_chan hch'
    exact h.1.chans id ch item count hch hitem (hval.symm.trans hv)
  env c x s γ _ h hs := by
    cases x with
    | evict layer key =>
      cases hs
      refine ⟨⟨h.1.db, fun layer' key' text item count hl ht => ?_, h.1.keyed, h.1.chans⟩, h.2⟩
      have hl : (c.shared.cache.put layer key none).lookup layer' key' = some text := hl
      by_cases hsame : layer' = layer ∧ key' = key
      · obtain ⟨rfl, rfl⟩ := hsame
        rw [Cache.CacheState.lookup_put_self] at hl
        cases hl
      · rw [Cache.CacheState.lookup_put_ne _ _ (by tauto)] at hl
        exact h.1.cache layer' key' text item count hl ht
    | _ => cases hs

/-- Any number of readers, in any interleaving, with statements that fail and waits that time
    out, over a cache whose counts are right: every successful result is exact. -/
theorem steadyCounts (cfg : Config) (init c : ReadersConfig ι)
    (acts : List (Act ι CountRead SvcChoice)) (hinit : (countReaders cfg).machine.init init)
    (hcache : ∀ layer item text count,
      init.shared.cache.lookup layer (countCacheKey item) = some text →
        I64.parse text = some count → count = init.shared.db.store.committed.totalCount item)
    (hrun : (countReaders cfg).machine.run init acts = some c) :
    ∀ i k result, c.calls i = .returned k result →
      Exact init.shared.db.store.committed.totalCount k result := by
  obtain ⟨hflights, hidle⟩ := hinit
  have hflights : init.shared.flights = .empty := hflights
  have hstart : SteadyInv init.shared.db.store.committed.totalCount init.shared
      fun _ : ι => none := by
    refine ⟨⟨fun _ => rfl, fun layer key text item count hl ht => ?_, ?_, ?_⟩, fun i g hg => by cases hg⟩
    · obtain ⟨rfl, hparse⟩ := ht
      exact hcache layer item text count hl hparse
    · rw [hflights]
      exact fun key id h => by cases h
    · rw [hflights]
      exact fun id ch item count h => by cases h
  exact ((steadyReaders_keep cfg _).returns_of_meets (R := fun _ _ k result => Exact _ k result)
    (fun s i k γ g a h hγ ha => ha.exact (h.2 i g hγ)) (fun _ _ _ _ _ _ _ _ _ h => h) hstart hidle
    (Machine.meets_of_forall (fun _ _ => trivial) _ _) hrun).2

/-- One like each of posts 7 and 8; L1 has the count of post 8. -/
def twoPosts : World ℕ :=
  { World.new with
    db := ⟨.ofTables ⟨[], fun _ => some 1⟩, fun _ => .epoch, 1⟩
    cache := Cache.CacheState.empty.put .l1 (.lc "post" 8) (some "1") }

/-- `n` operations of call `i`. -/
def operations (i n : ℕ) (x : SvcChoice) : List (Act ℕ CountRead SvcChoice) :=
  List.replicate n (.step i x)

/-- A batch that asks for post 7 twice and leads its fetch, and a reader that follows. -/
def followedBatch : List (Act ℕ CountRead SvcChoice) :=
  [.start 0 (.batchCounts [("post", 7), ("post", 8), ("post", 7)]),
    .start 1 (.getCountValue ("post", 7))] ++
    operations 0 4 (.cache .ok) ++ operations 0 1 (.order []) ++
    operations 0 1 (.flight .inTime) ++ operations 1 2 (.cache .ok) ++
    operations 1 1 (.flight .inTime) ++ operations 0 1 (.db (.run .epoch [])) ++
    operations 0 3 (.flight .inTime) ++ operations 0 2 (.cache .ok) ++
    operations 1 3 (.flight .inTime)

/-- What a call has returned. -/
def resultOf (cs : CallState CountRead SvcOp SvcOp.Ans CountResult) :
    Option (CountRead × (I64 ⊕ List BatchCountResult)) :=
  match cs with
  | .returned k (.ok answer) => some (k, answer)
  | _ => none

theorem steadyCounts_followedBatch : ∃ c : ReadersConfig ℕ,
    (countReaders .default).machine.run ⟨twoPosts, fun _ => .idle⟩ followedBatch = some c ∧
      resultOf (c.calls 1) = some (.getCountValue ("post", 7), .inl 1) ∧
      ∀ i k result, c.calls i = .returned k result →
        Exact twoPosts.db.store.committed.totalCount k result := by
  have hview : ((countReaders .default).machine.run
      (⟨twoPosts, fun _ => .idle⟩ : ReadersConfig ℕ) followedBatch).map (fun c =>
        resultOf (c.calls 1)) = some (some (.getCountValue ("post", 7), .inl 1)) := by
    decide +kernel
  obtain ⟨c, hrun, hresult⟩ := Option.map_eq_some_iff.mp hview
  refine ⟨c, hrun, hresult, ?_⟩
  apply steadyCounts .default (⟨twoPosts, fun _ => .idle⟩ : ReadersConfig ℕ) c followedBatch _ _ hrun
  · exact ⟨rfl, fun _ => rfl⟩
  · intro layer item text count hlookup hparse
    have htext : text = "1" := by
      cases layer with
      | redis => cases hlookup
      | l1 =>
        have hl : Function.update (fun _ => none) (CacheKey.lc "post" 8) (some "1")
            (countCacheKey item) = some text := hlookup
        by_cases hkey : countCacheKey item = .lc "post" 8
        · rw [hkey, Function.update_self] at hl
          exact (Option.some.inj hl).symm
        · rw [Function.update_of_ne hkey] at hl
          cases hl
    have hone : I64.parse "1" = some 1 := by decide
    rw [htext, hone] at hparse
    exact (Option.some.inj hparse).symm

end SocialApi.Services
