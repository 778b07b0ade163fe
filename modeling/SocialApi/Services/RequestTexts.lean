import SocialApi.Services.Requests
import SocialApi.Services.TextSources

/-!
# Where the calls have their texts from

Every call keeps to the protocol `texts`: what it stores under a key is the last text that it was
told for the key.

Results: `Request.texts`, from `getCountValue_texts`, `batchCounts_texts`, `getStatus_texts`,
`batchStatuses_texts`, `getUserLikes_texts`, `like_texts` and `unlike_texts`.
-/

namespace SocialApi.Services

open SocialApi.Concurrent SocialApi.Postgres SocialApi.Repositories

/-! ## The calls keep to the protocol -/

section Programs

variable {cfg : Config} {C : Codec} {g g' : TextLog} {α : Type}

/-- The call has no open transaction, and has changed nothing. -/
def Browsing (g : TextLog) : Prop := g.ledger.phase = .outside ∧ g.ledger.change = none

/-- Only what was seen and what is owed may differ. -/
structure Ahead (g g' : TextLog) : Prop where
  phase : g'.ledger.phase = g.ledger.phase
  change : g'.ledger.change = g.ledger.change
  mistakes : g'.mistakes = g.mistakes

theorem Ahead.browsing (h : Ahead g g') (hg : Browsing g) : Browsing g' :=
  ⟨h.phase.trans hg.1, h.change.trans hg.2⟩

theorem Ahead.trans {g'' : TextLog} (h : Ahead g g') (h' : Ahead g' g'') : Ahead g g'' :=
  ⟨h'.phase.trans h.phase, h'.change.trans h.change, h'.mistakes.trans h.mistakes⟩

/-- Operations that tell nothing and store what was seen. -/
def Retelling (g : TextLog) : SvcOp → Prop
  | .db _ => False
  | .cache (.redisGet _) => False
  | .cache (.redisMget _) => False
  | o => g.asks o

theorem OnFlights.retelling {o : SvcOp} (h : OnFlights o) : Retelling g o := by
  obtain ⟨f, rfl⟩ := h
  trivial

/-- They leave all that was seen. -/
theorem retelling_texts {p : Svc α} (hp : p.All (Retelling g)) :
    (texts C).Obeys (fun g' _ => Ahead g g' ∧ g'.seen = g.seen) g p := by
  refine Protocol.obeys_of_all_of_keeps (I := fun g' => Ahead g g' ∧ g'.seen = g.seen) ?_ hp
    ⟨⟨rfl, rfl, rfl⟩, rfl⟩
  rintro g' o ⟨hahead, hseen⟩ ho
  have hsame : g'.asks o ∧ ∀ r, Ahead g' (g'.next C o r) ∧ (g'.next C o r).seen = g'.seen := by
    cases o with
    | db q => exact ho.elim
    | cache o =>
      have hasks : g'.asks (.cache o) := by
        unfold TextLog.asks
        rw [hseen, hahead.mistakes]
        cases o <;> first | exact ho.elim | exact ho
      refine ⟨hasks, fun r => ⟨⟨rfl, rfl, rfl⟩, ?_⟩⟩
      cases o <;> first | exact ho.elim | rfl
    | _ => exact ⟨trivial, fun r => ⟨⟨rfl, rfl, rfl⟩, rfl⟩⟩
  refine ⟨hsame.1, ?_⟩
  rintro r g'' ⟨rfl, -⟩
  obtain ⟨hnext, hseen'⟩ := hsame.2 r
  exact ⟨hahead.trans hnext, hseen'.trans hseen⟩

/-- The rest of a call that only stores what was seen. -/
theorem rest_texts {p : Svc α} (hp : p.All (Retelling g)) (hphase : g.ledger.phase = .outside) :
    (texts C).Obeys (fun g' _ => g'.ledger.phase = .outside) g p :=
  (retelling_texts hp).mono fun _ _ h => h.1.phase.trans hphase

/-! ### The cache -/

theorem set_retelling {key : CacheKey} {text : String} (ttlSecs : ℕ)
    (h : g.seen key = some text ∨ g.mistakes key) :
    (cache (Cache.set key text ttlSecs)).All (Retelling g) := by
  refine ⟨?_, fun _ => ⟨?_, fun _ => trivial⟩⟩
  · rintro layer key' text' heq
    cases heq
    exact h
  · rintro layer key' text' heq
    cases heq
    exact h

theorem setMany_retelling {entries : List (CacheKey × String × ℕ)}
    (h : ∀ e ∈ entries, g.seen e.1 = some e.2.1) :
    (cache (Cache.setMany entries)).All (Retelling g) := by
  refine .lift (Cache.setMany_all fun e he => ⟨?_, ?_⟩)
  · rintro layer key text heq
    cases heq
    exact Or.inl (h e he)
  · rintro layer key text heq
    cases heq
    exact Or.inl (h e he)

theorem get_texts (key : CacheKey) :
    (texts C).Obeys (fun g' _ => Ahead g g') g (cache (Cache.get key)) := by
  refine ⟨fun _ _ _ h => (by cases h), ?_⟩
  rintro l1 g' ⟨rfl, -⟩
  cases l1 with
  | some text => exact ⟨rfl, rfl, rfl⟩
  | none =>
    refine ⟨fun _ _ _ h => (by cases h), ?_⟩
    rintro redis g' ⟨rfl, -⟩
    cases redis with
    | none => exact ⟨rfl, rfl, rfl⟩
    | some text =>
      refine ⟨fun layer key' text' h => Or.inl ?_, ?_⟩
      · cases h
        show (textAt key (some text) key).or _ = some text
        rw [textAt_self]
        rfl
      · rintro r g' ⟨rfl, -⟩
        exact ⟨rfl, rfl, rfl⟩

/-- The operations of the cache. -/
def cacheTexts (C : Codec) : Protocol Cache.Op Cache.Op.Ans TextLog :=
  (texts C).comap .cache fun _ r => r

theorem cache_retelling {p : Cache.CacheM α} (hp : p.All fun o => Retelling g (.cache o)) :
    (cacheTexts C).Obeys (fun g' _ => Ahead g g' ∧ g'.seen = g.seen) g p :=
  Protocol.obeys_lift.mp (retelling_texts (.lift hp))

theorem mget_texts (keys : List CacheKey) :
    (texts C).Obeys (fun g' _ => Ahead g g') g (cache (Cache.mget keys)) := by
  refine Protocol.obeys_lift.mpr ?_
  refine (cache_retelling (Cache.mgetL1_all fun key _ => fun _ _ _ h => by cases h)).bind ?_
  rintro g' results ⟨hahead, -⟩
  show (cacheTexts C).Obeys _ g' (if _ then _ else _)
  split_ifs with hnil
  · exact hahead
  · refine ⟨fun _ _ _ h => (by cases h), ?_⟩
    rintro r g'' ⟨vals, rfl, rfl, hfits⟩
    have hahead' : Ahead g (g'.next C (.cache (.redisMget _)) vals) :=
      hahead.trans ⟨rfl, rfl, rfl⟩
    cases vals with
    | none => exact hahead'
    | some vals =>
      obtain ⟨f, rfl⟩ := hfits _ rfl
      refine (cache_retelling (Cache.mgetFill_all _ _ fun e he v hv => ?_)).mono
        fun _ _ h => hahead'.trans h.1
      -- what Redis has answered for the key is what is stored
      rintro layer key text heq
      cases heq
      have hkey : e.1.2 ∈ (Cache.redisNeeded keys results).map Prod.snd :=
        List.mem_map.mpr ⟨e.1, (List.of_mem_zip he).1, rfl⟩
      have hf : f e.1.2 = some v := by
        rw [List.map_map] at he
        exact (Cache.eq_of_mem_zip_map he).symm.trans hv
      left
      show (tells C (.cache (.redisMget _)) (some _) e.1.2).or _ = some v
      rw [tells_mget f hkey, hf]
      rfl

/-! ### The readers -/

/-- A statement on the pool. -/
theorem read_texts {q : DbOp} {Q : TextLog → α → Prop} {f : q.Ans → Svc α} (hq : ReadsOnly q)
    (hg : Browsing g)
    (hf : ∀ r g', Ahead g g' →
      (∀ key text, tells C (.db q) r key = some text → g'.seen key = some text) →
      (texts C).Obeys Q g' (f r)) : (texts C).Obeys Q g (.op (.db q) f) := by
  obtain ⟨hphase, hchange⟩ := hg
  have hkept : g.ledger.phase.asks q ∧ ∀ r, (g.ledger.next C (.db q) r).phase = g.ledger.phase ∧
      g.ledger.changeAfter q r = g.ledger.change := by
    rw [hphase]
    cases q <;> first | exact hq.elim | exact ⟨trivial, fun _ => ⟨hphase, rfl⟩⟩
  refine ⟨⟨hkept.1, hchange⟩, ?_⟩
  rintro r g' ⟨rfl, -⟩
  obtain ⟨hphase', hchange'⟩ := hkept.2 r
  refine hf r _ ⟨hphase', hchange', rfl⟩ fun key text htells => ?_
  show ((g.ledger.changeAfter q r).bind _).or _ = some text
  rw [hchange', hchange, htells]
  rfl

/-- The answer to a query of one count. -/
theorem getCountRow_texts (hg : Browsing g) (item : Item) :
    (texts C).Obeys (fun g' result => Ahead g g' ∧ ∀ count, result = .ok count →
      g'.seen (countCacheKey item) = some count.toString) g (db (Repositories.getCount item)) := by
  refine read_texts trivial hg ?_
  rintro (error | row) g' hahead htells
  · exact ⟨hahead, fun count h => by cases h⟩
  · refine ⟨hahead, fun count hcount => ?_⟩
    rw [← Except.ok.inj hcount]
    exact htells _ _ (textAt_self _ _)

/-- A program on the pending fetches. -/
theorem flights_retelling {p : Svc α} (hp : p.All OnFlights) : p.All (Retelling g) :=
  hp.mono fun _ => OnFlights.retelling

theorem leadCount_texts (hg : Browsing g) (item : Item) (tx : PendingFetches.ChanId) :
    (texts C).Obeys (fun g' _ => g'.ledger.phase = .outside) g (leadCount cfg item tx) := by
  refine (getCountRow_texts hg item).bind ?_
  rintro g' result ⟨hahead, hseen⟩
  have hphase := (hahead.browsing hg).1
  cases result with
  | error error =>
    refine rest_texts ((flights_retelling (removePending_ops _)).bind fun _ => ?_) hphase
    exact (flights_retelling (flight_ops _)).bind fun _ => trivial
  | ok count =>
    refine rest_texts ((flights_retelling (flight_ops _)).bind fun _ => ?_) hphase
    refine (flights_retelling (removePending_ops _)).bind fun _ => ?_
    refine (set_retelling _ (Or.inl (hseen count rfl))).bind fun _ => ?_
    exact (flights_retelling (flight_ops _)).bind fun _ => trivial

theorem followCount_texts (hg : Browsing g) (item : Item) (rx : PendingFetches.Receiver) :
    (texts C).Obeys (fun g' _ => g'.ledger.phase = .outside) g (followCount item rx) := by
  refine (retelling_texts (flights_retelling (awaitSharedCount_ops rx))).bind ?_
  rintro g' shared ⟨hahead, -⟩
  have hg' := hahead.browsing hg
  cases shared with
  | some count =>
    exact rest_texts ((flights_retelling (flight_ops _)).bind fun _ => trivial) hg'.1
  | none =>
    refine (getCountRow_texts hg' item).bind ?_
    rintro g'' result ⟨hahead', -⟩
    exact rest_texts ((flights_retelling (flight_ops _)).bind fun _ => trivial)
      (hahead'.browsing hg').1

theorem getCountValue_texts (hg : Browsing g) (item : Item) :
    (texts C).Obeys (fun g' _ => g'.ledger.phase = .outside) g (getCountValue cfg item) := by
  refine (get_texts _).bind ?_
  rintro g' cached hahead
  cases hhit : cached.bind I64.parse with
  | some count => exact (hahead.browsing hg).1
  | none =>
    refine (retelling_texts (flights_retelling (flight_ops _))).bind ?_
    rintro g'' entry ⟨hahead', -⟩
    have hg'' := hahead'.browsing (hahead.browsing hg)
    cases entry with
    | leader tx => exact leadCount_texts hg'' item tx
    | follower rx => exact followCount_texts hg'' item rx

theorem followerLoop_texts (items : List Item) (missing : MissingMap)
    (rxs : List (CacheKey × PendingFetches.Receiver)) (results : List BatchCountResult)
    (hg : Browsing g) :
    (texts C).Obeys (fun g' _ => g'.ledger.phase = .outside) g
      (followerLoop cfg items missing rxs results) := by
  induction rxs generalizing g results with
  | nil => exact hg.1
  | cons x rxs ih =>
    obtain ⟨key, rx⟩ := x
    -- the receiver is dropped and the loop goes on
    have hnext : ∀ g' results, Browsing g' → (texts C).Obeys (fun g' _ =>
        g'.ledger.phase = .outside) g' ((flight (.dropReceiver rx)).bind fun _ =>
          followerLoop cfg items missing rxs results) := by
      intro g' results hg'
      refine (retelling_texts (flights_retelling (flight_ops _))).bind ?_
      rintro g'' - ⟨hahead, -⟩
      exact ih results (hahead.browsing hg')
    refine (retelling_texts (flights_retelling (awaitSharedCount_ops rx))).bind ?_
    rintro g' shared ⟨hahead, -⟩
    have hg' := hahead.browsing hg
    cases shared with
    | some count => exact hnext g' _ hg'
    | none =>
      dsimp only
      cases firstItem items missing key with
      | none => exact hnext g' _ hg'
      | some item =>
        refine (getCountRow_texts hg' item).bind ?_
        rintro g'' result ⟨hahead', hseen⟩
        have hg'' := hahead'.browsing hg'
        cases result with
        | error error =>
          exact rest_texts ((flights_retelling (dropReceivers_ops _)).bind fun _ => trivial) hg''.1
        | ok count =>
          refine (retelling_texts (set_retelling _ (Or.inl (hseen count rfl)))).bind ?_
          rintro g₃ - ⟨hahead₃, -⟩
          exact hnext g₃ _ (hahead₃.browsing hg'')

theorem fetchMissing_texts {items : List Item} {missing : MissingMap}
    (results : List BatchCountResult) {e : Election} (htracked : Tracked items missing)
    (hleads : ∀ key ∈ e.leaderKeys, key ∈ missing.keys)
    (hfetch : e.toFetch = e.leaderKeys.filterMap (firstItem items missing)) (hg : Browsing g) :
    (texts C).Obeys (fun g' _ => g'.ledger.phase = .outside) g
      (fetchMissing cfg items missing results e) := by
  unfold fetchMissing
  split_ifs with hnil
  · exact followerLoop_texts _ _ _ _ hg
  · unfold Repositories.batchGetCounts
    rw [if_neg hnil]
    refine read_texts trivial hg ?_
    rintro (error | rows) g' hahead htells
    · exact rest_texts ((flights_retelling (removeLoop_ops _)).bind fun _ =>
        (flights_retelling (dropReceivers_ops _)).bind fun _ => trivial) (hahead.browsing hg).1
    · obtain ⟨hall, hends⟩ := leaderLoop_ops cfg items missing (collectRows rows) e.leaderKeys
        results []
      refine ((retelling_texts (flights_retelling hall)).and_ends hends).bind ?_
      rintro g'' filled ⟨⟨hahead', hsame⟩, hfilled⟩
      have hentries : ∀ entry ∈ filled.2, g''.seen entry.1 = some entry.2.1 := by
        intro entry hentry
        obtain ⟨hlead, htext⟩ := (hfilled entry hentry).resolve_left List.not_mem_nil
        obtain ⟨item, hfirst, hitem⟩ := htracked.firstItem (hleads _ hlead)
        have hmem : item ∈ e.toFetch := by
          rw [hfetch]
          exact List.mem_filterMap.mpr ⟨_, hlead, hfirst⟩
        rw [hsame, htext, hfirst, ← hitem]
        exact htells _ _ (findSome?_textAt countCacheKey_injective _ hmem)
      refine (retelling_texts (setMany_retelling hentries)).bind ?_
      rintro g₃ - ⟨hahead₃, -⟩
      exact followerLoop_texts _ _ _ _ (hahead₃.browsing (hahead'.browsing (hahead.browsing hg)))

theorem batchCounts_texts (hg : Browsing g) (items : List Item) :
    (texts C).Obeys (fun g' _ => g'.ledger.phase = .outside) g (batchCounts cfg items) := by
  unfold batchCounts
  split_ifs
  · exact hg.1
  · refine (mget_texts _).bind ?_
    rintro g' cached hahead
    have hg' := hahead.browsing hg
    have htracked := splitCached_tracked cached items
    show (texts C).Obeys _ g' (if _ then _ else _)
    split_ifs
    · exact hg'.1
    · refine (retelling_texts (p := perform .hashOrder) ⟨trivial, fun _ => trivial⟩).bind ?_
      rintro g'' order ⟨hahead', -⟩
      have hperm := shuffle_perm order (splitCached cached 0 items [] []).2.keys
      obtain ⟨hall, hends⟩ := electLoop_ops items (splitCached cached 0 items [] []).2
        (shuffle order (splitCached cached 0 items [] []).2.keys) ⟨[], [], []⟩
      refine (((retelling_texts (flights_retelling hall)).and_ends hends).and_ends
        (electLoop_fetch items _ _ rfl)).bind ?_
      rintro g₃ e ⟨⟨⟨hahead₃, -⟩, hleads⟩, hfetch⟩
      refine fetchMissing_texts _ htracked (fun key hkey => hperm.mem_iff.mp ?_) hfetch
        (hahead₃.browsing (hahead'.browsing hg'))
      exact (hleads key hkey).resolve_left List.not_mem_nil

theorem getStatus_texts (hg : Browsing g) (userId : Uuid) (item : Item) :
    (texts C).Obeys (fun g' _ => g'.ledger.phase = .outside) g (getStatus cfg C userId item) := by
  refine (get_texts _).bind ?_
  rintro g' cached hahead
  have hg' := hahead.browsing hg
  cases cached with
  | some text => exact hg'.1
  | none =>
    refine read_texts trivial hg' ?_
    rintro (error | likedAt) g'' hahead' htells
    · exact (hahead'.browsing hg').1
    · refine rest_texts ((set_retelling _ (Or.inl ?_)).bind fun _ => trivial)
        (hahead'.browsing hg').1
      exact htells _ _ (textAt_self _ _)

theorem batchStatuses_texts (hg : Browsing g) (userId : Uuid) (items : List Item) :
    (texts C).Obeys (fun g' _ => g'.ledger.phase = .outside) g
      (batchStatuses cfg C userId items) := by
  unfold batchStatuses
  split_ifs
  · exact hg.1
  · refine (mget_texts _).bind ?_
    rintro g' cached hahead
    have hg' := hahead.browsing hg
    dsimp only
    split_ifs with hnil
    · exact hg'.1
    · unfold Repositories.batchGetStatuses
      split_ifs with hmissing
      · refine rest_texts ((setMany_retelling fun entry hentry => ?_).bind fun _ => trivial) hg'.1
        -- nothing is fetched, and there are no entries
        rcases fillStatuses_entries _ _ _ entry hentry with h | ⟨item, hitem, -⟩
        · cases h
        · rw [hmissing] at hitem
          cases hitem
      · refine read_texts trivial hg' ?_
        rintro (error | rows) g'' hahead' htells
        · exact (hahead'.browsing hg').1
        · refine rest_texts ((setMany_retelling fun entry hentry => ?_).bind fun _ => trivial)
            (hahead'.browsing hg').1
          rcases fillStatuses_entries _ _ _ entry hentry with h | ⟨item, hitem, hkey, htext⟩
          · cases h
          · rw [hkey, htext]
            exact htells _ _ (findSome?_textAt (statusCacheKey_injective userId) _ hitem)

theorem firstPage_texts (hg : Browsing g) (userId : Uuid) (contentTypeFilter : Option String)
    (limit : ℕ) (hmistakes : contentTypeFilter = some "_" → g.mistakes (.ul userId "_")) :
    (texts C).Obeys (fun g' _ => g'.ledger.phase = .outside) g
      (firstPage cfg C userId contentTypeFilter limit) := by
  refine (get_texts _).bind ?_
  rintro g' cached hahead
  have hg' := hahead.browsing hg
  cases hhit : cached.bind C.pageFromJson with
  | some page => exact hg'.1
  | none =>
    refine read_texts trivial hg' ?_
    rintro (error | rows) g'' hahead' htells
    · exact (hahead'.browsing hg').1
    · have hphase := (hahead'.browsing hg').1
      dsimp only [Prog.lift, Prog.ret_bind, Prog.pure_eq, Except.mapError]
      split
      · rename_i json hjson
        refine rest_texts ((set_retelling _ ?_).bind fun _ => trivial) hphase
        by_cases hfilter : contentTypeFilter = some "_"
        · right
          rw [hahead'.mistakes, hahead.mistakes, hfilter]
          exact hmistakes hfilter
        · left
          refine htells _ _ ?_
          show textAt _ (if _ then _ else _) _ = _
          rw [textAt_self, if_pos ⟨rfl, hfilter⟩]
          exact hjson
      · exact hphase

theorem getUserLikes_texts (hg : Browsing g) (userId : Uuid)
    (contentTypeFilter cursor : Option String) (limit : I64)
    (hmistakes : cursor = none → contentTypeFilter = some "_" → g.mistakes (.ul userId "_")) :
    (texts C).Obeys (fun g' _ => g'.ledger.phase = .outside) g
      (getUserLikes cfg C userId contentTypeFilter cursor limit) := by
  cases cursor with
  | none => exact firstPage_texts hg _ _ _ (hmistakes rfl)
  | some cursor =>
    show (texts C).Obeys _ g (nextPage C userId contentTypeFilter cursor (clampLimit limit))
    unfold nextPage
    cases Cursor.decode C cursor with
    | none => exact hg.1
    | some c =>
      refine read_texts trivial hg ?_
      rintro (error | rows) g' hahead -
      · exact (hahead.browsing hg).1
      · exact (hahead.browsing hg).1

/-! ### The writers -/

/-- The statements of a repository function. -/
def statementTexts (C : Codec) : Protocol DbOp DbOp.Ans TextLog :=
  (texts C).comap .db fun _ r => r

/-- A statement, with its error returned. -/
theorem attempt_texts {Q : TextLog → Except SqlxError α → Prop} {q : DbOp} {f : q.Rows → Repo α}
    (hq : g.ledger.phase.asks q) (hchange : g.ledger.change = none)
    (hok : ∀ a, g.ledger.phase.Fits q (.ok a) →
      (statementTexts C).Obeys Q (g.next C (.db q) (.ok a)) (f a))
    (herr : ∀ e, Q (g.next C (.db q) (.error e)) (.error e)) :
    (statementTexts C).Obeys Q g (Repositories.attempt q f) := by
  unfold Repositories.attempt
  rw [Protocol.obeys_bind]
  refine ⟨⟨hq, hchange⟩, ?_⟩
  rintro r g' ⟨r', rfl, rfl, hfits⟩
  cases r' with
  | error e => exact herr e
  | ok a => exact hok a hfits

/-- A statement inside a transaction, which an error ends. -/
theorem inTx_texts {Q : TextLog → Except SqlxError α → Prop} {q : DbOp} {f : q.Rows → Repo α}
    (hq : g.ledger.phase.asks q) (hchange : g.ledger.change = none)
    (hok : ∀ a, g.ledger.phase.Fits q (.ok a) →
      (statementTexts C).Obeys Q (g.next C (.db q) (.ok a)) (f a))
    (hroll : ∀ e, (g.ledger.phase.next q (.error e)).asks .rollback)
    (herr : ∀ g' e, g'.ledger.phase = .outside → Q g' (.error e)) :
    (statementTexts C).Obeys Q g (inTx q f) := by
  unfold inTx
  rw [Protocol.obeys_bind]
  refine ⟨⟨hq, hchange⟩, ?_⟩
  rintro r g' ⟨r', rfl, rfl, hfits⟩
  cases r' with
  | error e =>
    refine ⟨⟨hroll e, (changeAfter_error g.ledger q e).trans hchange⟩, ?_⟩
    rintro r g' ⟨r', rfl, rfl, -⟩
    exact herr _ e rfl
  | ok a => exact hok a hfits

theorem seen_next (q : DbOp) (r : q.Ans) (key : CacheKey) :
    (g.next C (.db q) r).seen key =
      ((g.ledger.changeAfter q r).bind fun ch => ch.texts C key).or
        ((tells C (.db q) r key).or (g.seen key)) := rfl

/-- The call was told the count of the item and the status of the user. -/
def Informed (C : Codec) (userId : Uuid) (item : Item) (count : I64) (likedAt : Option DateTime)
    (g : TextLog) : Prop :=
  g.seen (countCacheKey item) = some count.toString ∧
    g.seen (statusCacheKey userId item) = some (statusText C likedAt)

/-- The commit of a change tells both. -/
theorem informed_of_change {q : DbOp} {r : q.Ans} (ch : Change)
    (h : g.ledger.changeAfter q r = some ch) :
    Informed C ch.key.1 ch.key.2 ch.count ch.likedAt (g.next C (.db q) r) := by
  have hseen : ∀ key text, ch.texts C key = some text → (g.next C (.db q) r).seen key = some text := by
    intro key text htext
    rw [seen_next, h, Option.bind_some, htext]
    rfl
  constructor
  · refine hseen _ _ ?_
    unfold Change.texts
    rw [textAt_self]
    rfl
  · refine hseen _ _ ?_
    unfold Change.texts
    rw [textAt_self, textAt, if_neg nofun]
    rfl

/-- A statement that commits no change tells what is in its answer. -/
theorem seen_of_tells {q : DbOp} {r : q.Ans} (h : g.ledger.changeAfter q r = none) {key : CacheKey}
    {text : String} (htells : tells C (.db q) r key = some text) :
    (g.next C (.db q) r).seen key = some text := by
  rw [seen_next, h, htells]
  rfl

/-- What is not in the answer is as it was. -/
theorem seen_of_not_tells {q : DbOp} {r : q.Ans} (h : g.ledger.changeAfter q r = none)
    {key : CacheKey} (htells : tells C (.db q) r key = none) :
    (g.next C (.db q) r).seen key = g.seen key := by
  rw [seen_next, h, htells]
  rfl

theorem Informed.commit {userId : Uuid} {item : Item} {count : I64} {likedAt : Option DateTime}
    (h : Informed C userId item count likedAt g)
    (hchange : g.ledger.changeAfter .commit (.ok ()) = none) :
    Informed C userId item count likedAt (g.next C (.db .commit) (.ok ())) :=
  ⟨(seen_of_not_tells hchange rfl).trans h.1, (seen_of_not_tells hchange rfl).trans h.2⟩

/-- The existing row tells both. -/
theorem informed_of_existing (hchange : g.ledger.change = none) (userId : Uuid) (item : Item)
    (found : LikeRow × I64) :
    Informed C userId item found.2 (some found.1.createdAt)
      (g.next C (.db (.selectExisting userId item)) (.ok (some found))) := by
  obtain ⟨row, total⟩ := found
  have hafter : g.ledger.changeAfter (.selectExisting userId item) (.ok (some (row, total))) =
      none := hchange
  constructor
  · refine seen_of_tells hafter ?_
    show (textAt _ _ (countCacheKey item)).or _ = some total.toString
    rw [textAt_self]
    rfl
  · refine seen_of_tells hafter ?_
    show (textAt (countCacheKey item) (some total.toString) (statusCacheKey userId item)).or
      (textAt (statusCacheKey userId item) (some (statusText C (some row.createdAt)))
        (statusCacheKey userId item)) = _
    rw [textAt_self, textAt, if_neg nofun]
    rfl

/-- So do `DELETE`, when there is no row, and the query of the count after it. -/
theorem informed_of_missing (hchange : g.ledger.change = none) (userId : Uuid) (item : Item)
    (count : Option I64) :
    Informed C userId item (count.getD 0) none
      ((g.next C (.db (.deleteLike userId item)) (.ok 0)).next C (.db (.selectCount item))
        (.ok count)) := by
  have hdelete : g.ledger.changeAfter (.deleteLike userId item) (.ok 0) = none := hchange
  have hselect : (g.next C (.db (.deleteLike userId item)) (.ok 0)).ledger.changeAfter
      (.selectCount item) (.ok count) = none := hchange
  constructor
  · exact seen_of_tells hselect (textAt_self _ _)
  · refine (seen_of_not_tells hselect (if_neg nofun)).trans ?_
    exact seen_of_tells hdelete (textAt_self _ _)

/-- The end of `insert_like`. -/
def LikeTold (C : Codec) (userId : Uuid) (item : Item) (g : TextLog) :
    Except SqlxError InsertLikeResult → Prop
  | .ok (.inserted row count) => Informed C userId item count (some row.createdAt) g
  | .ok (.alreadyExisted row count) => Informed C userId item count (some row.createdAt) g
  | _ => True

theorem insertLike_texts (k : Request) (userId : Uuid) (item : Item) :
    (statementTexts C).Obeys (fun g result => g.ledger.phase = .outside ∧
      LikeTold C userId item g result) (.fresh k) (insertLike userId item) := by
  have herr : ∀ (g : TextLog) (e : SqlxError), g.ledger.phase = .outside →
      g.ledger.phase = .outside ∧ LikeTold C userId item g (.error e) := fun g e h => ⟨h, trivial⟩
  unfold insertLike
  refine attempt_texts trivial rfl (fun _ _ => ?_) fun e => herr _ e rfl
  refine inTx_texts trivial rfl (fun row _ => ?_) (fun _ => trivial) herr
  cases row with
  | some likeRow =>
    refine inTx_texts rfl rfl (fun count _ => ?_) (fun _ => trivial) herr
    refine attempt_texts trivial rfl (fun _ _ => ⟨rfl, ?_⟩) fun e => herr _ e rfl
    exact informed_of_change ⟨(userId, item), some likeRow.createdAt, count⟩ rfl
  | none =>
    refine inTx_texts trivial rfl (fun existing _ => ?_) (fun _ => trivial) herr
    refine attempt_texts trivial rfl (fun _ _ => ?_) fun e => herr _ e rfl
    cases existing with
    | some found => exact ⟨rfl, (informed_of_existing rfl userId item found).commit rfl⟩
    | none => exact attempt_texts trivial rfl (fun _ _ => ⟨rfl, trivial⟩) fun e => herr _ e rfl

/-- The end of `delete_like`. -/
def UnlikeTold (C : Codec) (userId : Uuid) (item : Item) (g : TextLog) :
    Except SqlxError DeleteLikeResult → Prop
  | .ok result => Informed C userId item result.count none g
  | _ => True

/-- The rest of `delete_like` after a row has been deleted. -/
theorem decrement_texts {userId : Uuid} {item : Item}
    (hphase : g.ledger.phase = .deleted (userId, item)) (hchange : g.ledger.change = none) :
    (statementTexts C).Obeys (fun g result => g.ledger.phase = .outside ∧
      UnlikeTold C userId item g result) g
      (inTx (.decrementCount item) fun count => Repositories.attempt .commit fun _ =>
        .ret (.ok ⟨true, count.getD 0⟩)) := by
  obtain ⟨⟨phase, row, change, owes, touched⟩, mistakes, seen⟩ := g
  obtain rfl : phase = .deleted (userId, item) := hphase
  obtain rfl : change = none := hchange
  refine inTx_texts rfl rfl (fun count hfits => ?_) (fun _ => trivial) fun _ _ h => ⟨h, trivial⟩
  cases count with
  | none => exact absurd rfl hfits.1
  | some c =>
    refine attempt_texts trivial rfl (fun _ _ => ⟨rfl, ?_⟩) fun _ => ⟨rfl, trivial⟩
    exact informed_of_change ⟨(userId, item), none, c⟩ rfl

theorem deleteLike_texts (k : Request) (userId : Uuid) (item : Item) :
    (statementTexts C).Obeys (fun g result => g.ledger.phase = .outside ∧
      UnlikeTold C userId item g result) (.fresh k) (deleteLike userId item) := by
  unfold deleteLike
  refine attempt_texts trivial rfl (fun _ _ => ?_) fun _ => ⟨rfl, trivial⟩
  refine inTx_texts trivial rfl (fun rowsAffected _ => ?_) (fun _ => trivial)
    fun _ _ h => ⟨h, trivial⟩
  by_cases hn : rowsAffected > 0
  · rw [if_pos hn]
    exact decrement_texts (if_pos hn) rfl
  · rw [if_neg hn]
    obtain rfl : rowsAffected = 0 := Nat.eq_zero_of_not_pos hn
    refine inTx_texts trivial rfl (fun count _ => ?_) (fun _ => trivial)
      fun _ _ h => ⟨h, trivial⟩
    refine attempt_texts trivial rfl (fun _ _ => ⟨rfl, ?_⟩) fun _ => ⟨rfl, trivial⟩
    exact (informed_of_missing rfl userId item count).commit rfl

/-- The breaker and the validator tell nothing. -/
theorem texts_ofBreaker {k : Request} {o : SvcOp} (ho : o.OfBreaker) :
    (texts C).asks (.fresh k) o ∧ ∀ r g', (texts C).answers (.fresh k) o r g' → g' = .fresh k := by
  have hledger : ∀ r, Ledger.fresh.next C o r = .fresh ∧ (TextLog.fresh k).seenAfter C o r =
      fun _ => none := by
    obtain ⟨-, hnext⟩ := ledger_ofBreaker (C := C) ho
    intro r
    cases o <;> first | exact ho.elim | exact ⟨hnext r _ ⟨rfl, trivial⟩, rfl⟩
  refine ⟨by cases o <;> first | exact ho.elim | trivial, ?_⟩
  rintro r g' ⟨rfl, -⟩
  show TextLog.mk (Ledger.fresh.next C o r) k.Mistakes ((TextLog.fresh k).seenAfter C o r) = _
  rw [(hledger r).1, (hledger r).2]
  rfl

/-- Validate, change the tables, and go on with the result. -/
theorem mutation_texts {k : Request} {item : Item} {p : Repo α}
    {Q : TextLog → Except SqlxError α → Prop} {f : α → Svc (Except AppError LikeActionResponse)}
    (hp : (statementTexts C).Obeys (fun g result => g.ledger.phase = .outside ∧ Q g result)
      (.fresh k) p)
    (hf : ∀ g a, Q g (.ok a) → (f a).All (Retelling g)) :
    (texts C).Obeys (fun g' _ => g'.ledger.phase = .outside) (.fresh k)
      (attempt (validateContent item) fun _ => attempt (db p) f) := by
  refine (Protocol.obeys_of_all (Q := fun g _ => g = .fresh k) (fun _ => texts_ofBreaker)
    (validateContent_ofBreaker item) fun _ => rfl).bind ?_
  rintro g (error | u) rfl
  · exact rfl
  · have hdb : (texts C).Obeys (fun g a => g.ledger.phase = .outside ∧
        ∀ b, a = .ok b → Q g (.ok b)) (.fresh k) (db p) := by
      refine (Protocol.obeys_lift.mpr hp).bind ?_
      rintro g (error | b) ⟨hphase, hQ⟩
      · exact ⟨hphase, fun b h => by cases h⟩
      · exact ⟨hphase, fun b' h => by rwa [← Except.ok.inj h]⟩
    refine hdb.bind ?_
    rintro g (error | b) ⟨hphase, hQ⟩
    · exact hphase
    · exact rest_texts (hf g b (hQ b rfl)) hphase

/-- The count and the status are stored. -/
theorem Informed.retelling {userId : Uuid} {item : Item} {count : I64} {likedAt : Option DateTime}
    (h : Informed C userId item count likedAt g) {p : Svc α} (hp : p.All (Retelling g)) :
    ((writeCount cfg item count).bind fun _ =>
      (updateStatusCache cfg C userId item likedAt).bind fun _ => p).All (Retelling g) :=
  (set_retelling _ (Or.inl h.1)).bind fun _ => (set_retelling _ (Or.inl h.2)).bind fun _ => hp

theorem invalidateUserLikes_retelling (userId : Uuid) (contentType : String) :
    (invalidateUserLikes userId contentType).All (Retelling g) := by
  have hnone : ∀ o : Cache.Op, o.store = none → ∀ layer key text,
      o.store = some (layer, key, text) → g.seen key = some text ∨ g.mistakes key := by
    intro o ho layer key text h
    rw [ho] at h
    cases h
  exact ⟨hnone _ rfl, fun _ => ⟨hnone _ rfl, fun _ => ⟨hnone _ rfl, fun _ => ⟨hnone _ rfl,
    fun _ => ⟨hnone _ rfl, fun _ => trivial⟩⟩⟩⟩⟩

theorem like_texts (k : Request) (userId : Uuid) (item : Item) :
    (texts C).Obeys (fun g' _ => g'.ledger.phase = .outside) (.fresh k)
      (like cfg C userId item) := by
  refine mutation_texts (insertLike_texts k userId item) fun g result hresult => ?_
  cases result with
  | inserted row count =>
    refine Informed.retelling hresult ?_
    exact (invalidateUserLikes_retelling userId item.1).bind fun _ => ⟨trivial, fun _ => trivial⟩
  | alreadyExisted row count => exact Informed.retelling hresult trivial
  | concurrentlyRemoved count => trivial

theorem unlike_texts (k : Request) (userId : Uuid) (item : Item) :
    (texts C).Obeys (fun g' _ => g'.ledger.phase = .outside) (.fresh k)
      (unlike cfg C userId item) := by
  refine mutation_texts (deleteLike_texts k userId item) fun g result hresult => ?_
  refine Informed.retelling hresult ?_
  refine (invalidateUserLikes_retelling userId item.1).bind fun _ => ?_
  show Prog.All (Retelling g) (if _ then _ else _)
  split_ifs
  · exact ⟨trivial, fun _ => ⟨trivial, fun _ => trivial⟩⟩
  · trivial

/-! ### All of them -/

/-- Every call keeps to the protocol. -/
theorem Request.texts (k : Request) : (texts C).Obeys k.Over (.fresh k) (k.prog cfg C) := by
  have hg : Browsing (.fresh k) := ⟨rfl, rfl⟩
  cases k with
  | mutation m =>
    cases m with
    | like userId item => exact (like_texts _ userId item).bind fun g _ hphase => hphase
    | unlike userId item => exact (unlike_texts _ userId item).bind fun g _ hphase => hphase
  | getCount item =>
    refine Protocol.Obeys.bind ((getCountValue_texts hg item).bind ?_) fun g _ hphase => hphase
    rintro g (error | count) hphase
    · exact hphase
    · exact hphase
  | batchCounts items => exact (batchCounts_texts hg items).bind fun g _ hphase => hphase
  | getStatus userId item => exact (getStatus_texts hg userId item).bind fun g _ hphase => hphase
  | batchStatuses userId items =>
    exact (batchStatuses_texts hg userId items).bind fun g _ hphase => hphase
  | getUserLikes userId contentTypeFilter cursor limit =>
    refine (getUserLikes_texts hg userId contentTypeFilter cursor limit ?_).bind
      fun g _ hphase => hphase
    rintro rfl rfl
    exact rfl

end Programs

end SocialApi.Services
