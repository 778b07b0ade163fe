import SocialApi.Services.Events
import SocialApi.Services.SequentialReads

/-!
# Calls one after another

One process that starts with empty caches and serves one call after another, while Redis commands
succeed; between two calls any entry may expire or be evicted.

* `own_like`, `own_unlike`: a writer leaves every entry right: it writes the count and the status
  that it has committed and deletes the pages that its change is on.
* `service_serves`: every call keeps the tables and the entries in order and answers with what the
  tables give.
* `uncached_of_sequential`: so the counts and the statuses are those of the tables, as if there
  were no cache.
* `pages_of_sequential`: and the first pages are those of an uncached keyset query.
-/

namespace SocialApi.Services

open SocialApi.Concurrent SocialApi.Postgres SocialApi.Repositories

variable {ι : Type}

/-! ## The statements of a writer -/

variable [DecidableEq ι]

section Statements

variable {cfg : Config} {C : Codec} {i : ι} {s s' : World ι} {t : Tables} {α : Type}

/-- The statements of a call on its own. -/
def ownStatements (cfg : Config) (i : ι) : Protocol DbOp DbOp.Ans (World ι) :=
  (onItsOwn cfg i).comap .db fun _ r => r

/-- A statement outside a transaction: errors end the function. -/
theorem own_statement {Q : Except SqlxError α → Prop} {q : DbOp} {f : q.Rows → Repo α}
    (hok : ∀ now order db' a s', runStatement s.db i now order q = some (db', .ok a) →
      s'.db = db' → (ownStatements cfg i).Obeys (fun _ => Q) s' (f a))
    (herr : ∀ e, Q (.error e)) :
    (ownStatements cfg i).Obeys (fun _ => Q) s (Repositories.attempt q f) := by
  unfold Repositories.attempt
  rw [Protocol.obeys_bind]
  refine ⟨trivial, ?_⟩
  rintro r s' ⟨r', rfl, x, -, hs⟩
  cases r' with
  | error e => exact herr e
  | ok a =>
    obtain ⟨now, order, rfl, hrun⟩ := handle_ok hs
    exact hok now order s'.db a s' hrun rfl

/-- A statement inside a transaction: errors end it and the function. -/
theorem own_inTx {Q : Except SqlxError α → Prop} {q : DbOp} {f : q.Rows → Repo α}
    (hok : ∀ now order db' a s', runStatement s.db i now order q = some (db', .ok a) →
      s'.db = db' → (ownStatements cfg i).Obeys (fun _ => Q) s' (f a))
    (herr : ∀ e, Q (.error e)) :
    (ownStatements cfg i).Obeys (fun _ => Q) s (inTx q f) := by
  unfold inTx
  rw [Protocol.obeys_bind]
  refine ⟨trivial, ?_⟩
  rintro r s' ⟨r', rfl, x, -, hs⟩
  cases r' with
  | error e =>
    refine ⟨trivial, ?_⟩
    rintro r s'' -
    exact herr e
  | ok a =>
    obtain ⟨now, order, rfl, hrun⟩ := handle_ok hs
    exact hok now order s'.db a s' hrun rfl

/-- What `insert_like` on its own says of tables it does not change. -/
def SaysExisting (t : Tables) (key : LikeKey) : Except SqlxError InsertLikeResult → Prop
  | .ok (.alreadyExisted row count) =>
    (t.find key).map LikesRow.createdAt = some row.createdAt ∧ count = t.totalCount key.2
  | .ok (.concurrentlyRemoved _) => False
  | _ => True

theorem insertLike_own (hcommitted : s.db.store.committed = t) (userId : Uuid) (item : Item) :
    (ownStatements cfg i).Obeys (fun _ => SaysExisting t (userId, item)) s
      (insertLike userId item) := by
  unfold insertLike
  refine own_statement (fun now order d₁ u s₁ hrun hd₁ => ?_) fun _ => trivial
  cases hrun
  have hview : s₁.db.view i = t := by
    rw [hd₁, ← hcommitted]
    exact Store.view_of_txs Store.beginTx_txs
  refine own_inTx (fun now order d₂ row s₂ hrun hd₂ => ?_) fun _ => trivial
  cases row with
  | some likeRow =>
    refine own_inTx (fun _ _ _ count s₃ _ _ => ?_) fun _ => trivial
    exact own_statement (fun _ _ _ _ _ _ _ => trivial) fun _ => trivial
  | none =>
    -- there is a row, and it is still there
    obtain ⟨hfind, hview₂⟩ : ((s₁.db.view i).find (userId, item)).isSome ∧ s₂.db.view i = t := by
      rw [hd₂]
      simp only [runStatement] at hrun
      split_ifs at hrun
      split at hrun
      · cases hrun
      · split at hrun
        · rename_i hsome
          cases hrun
          exact ⟨by rw [hsome]; rfl, hview⟩
        · cases hrun
    rw [hview] at hfind
    obtain ⟨row, hrow⟩ := Option.isSome_iff_exists.mp hfind
    refine own_inTx (fun now order d₃ existing s₃ hrun _ => ?_) fun _ => trivial
    have hexisting : existing = some (row.toLikeRow, t.totalCount item) := by
      have h := (Except.ok.inj (Prod.mk.inj (Option.some.inj hrun)).2).symm
      rw [h, hview₂, hrow]
      rfl
    subst hexisting
    refine own_statement (fun _ _ _ _ s₄ _ _ => ?_) fun _ => trivial
    refine ⟨?_, rfl⟩
    rw [hrow]
    rfl

/-- What `delete_like` on its own says of tables it does not change. -/
def SaysAbsent (t : Tables) (key : LikeKey) : Except SqlxError DeleteLikeResult → Prop
  | .ok ⟨false, count⟩ => t.find key = none ∧ count = t.totalCount key.2
  | _ => True

theorem deleteLike_own (hcommitted : s.db.store.committed = t) (userId : Uuid) (item : Item) :
    (ownStatements cfg i).Obeys (fun _ => SaysAbsent t (userId, item)) s
      (deleteLike userId item) := by
  unfold deleteLike
  refine own_statement (fun now order d₁ u s₁ hrun hd₁ => ?_) fun _ => trivial
  cases hrun
  have hview : s₁.db.view i = t := by
    rw [hd₁, ← hcommitted]
    exact Store.view_of_txs Store.beginTx_txs
  refine own_inTx (fun now order d₂ rowsAffected s₂ hrun hd₂ => ?_) fun _ => trivial
  split_ifs with hn
  · refine own_inTx (fun _ _ _ count s₃ _ _ => ?_) fun _ => trivial
    exact own_statement (fun _ _ _ _ _ _ _ => trivial) fun _ => trivial
  · -- no row has been deleted: there was none
    obtain ⟨hnone, hview₂⟩ : (t.likes.filter fun r => r.key = (userId, item)) = [] ∧
        s₂.db.view i = t := by
      rw [hd₂]
      simp only [runStatement] at hrun
      split at hrun
      · rename_i hrows
        cases hrun
        rw [hview] at hrows
        exact ⟨hrows, hview⟩
      · rename_i rows hrows
        split_ifs at hrun
        have hlength := Except.ok.inj (Prod.mk.inj (Option.some.inj hrun)).2
        exact absurd (List.length_eq_zero_iff.mp (hlength.trans (Nat.eq_zero_of_not_pos hn))) hrows
    refine own_inTx (fun now order d₃ count s₃ hrun _ => ?_) fun _ => trivial
    have hcount : count = t.likeCounts item := by
      rw [← hview₂]
      exact (Except.ok.inj (Prod.mk.inj (Option.some.inj hrun)).2).symm
    refine own_statement (fun _ _ _ _ s₄ _ _ => ?_) fun _ => trivial
    refine ⟨?_, by rw [hcount]; rfl⟩
    unfold Tables.find
    rw [← List.head?_filter, hnone]
    rfl

end Statements

/-! ## What a writer leaves -/

/-- Between two calls: the tables are consistent, no transaction is open, `pending_fetches` is in
    order and every entry is right. -/
structure Orderly (C : Codec) (s : World ι) : Prop where
  ledger : LedgerInv s fun _ => none
  intact : Intact C s.db s

/-- A call that has the ledger `g` since it started in `s₀`. -/
structure Writing (i : ι) (s₀ s : World ι) (g : Ledger) : Prop where
  ledger : LedgerInv s (Function.update (fun _ => none) i (some g))
  cache : s.cache = s₀.cache
  flights : s.flights = s₀.flights
  same : g.change = none → s.db.store.committed = s₀.db.store.committed
  changed : ∀ ch, g.change = some ch → Changed s₀.db.store.committed ch s.db.store.committed

/-- The tables after a writer's statements: unchanged, or changed as the entries do not know. -/
structure Owing (C : Codec) (ch : Change) (s : World ι) : Prop where
  ledger : LedgerInv s fun _ => none
  flights : Registered s.flights
  cache : CacheRight C s.db.store.committed ch.Keys s.cache
  count : s.db.store.committed.totalCount ch.key.2 = ch.count
  likedAt : (s.db.store.committed.find ch.key).map LikesRow.createdAt = ch.likedAt

/-- An operation on neither the database, the cache nor the flights. -/
def SvcOp.Elsewhere : SvcOp → Prop
  | db _ => False
  | cache _ => False
  | flight _ => False
  | _ => True

theorem SvcOp.Elsewhere.offDb {o : SvcOp} (h : o.Elsewhere) : o.OffDb := by
  cases o with
  | db q => exact h
  | _ => trivial

theorem SvcOp.Elsewhere.ne_cache {o : SvcOp} (h : o.Elsewhere) (o' : Cache.Op) : o ≠ .cache o' := by
  rintro rfl
  exact h

theorem SvcOp.Elsewhere.ne_flight {o : SvcOp} (h : o.Elsewhere) (o' : PendingFetches.Op) :
    o ≠ .flight o' := by
  rintro rfl
  exact h

section Writers

variable {cfg : Config} {C : Codec} {i : ι} {s s' : World ι} {d : DbState ι} {g : Ledger}
  {α β : Type}

variable (cfg i) in
/-- The statements of a repository function keep the ledger. -/
theorem own_writes {p : Repo α} {Q : Ledger → Except SqlxError α → Prop}
    (h : (ledgerStatements C).Obeys Q .fresh p) (hs : LedgerInv s fun _ => none) :
    (onItsOwn cfg i).Obeys (fun s' result => ∃ g, Q g result ∧ Writing i s s' g) s
      (p.lift .db fun _ r => r) := by
  have hfresh : Writing i s s .fresh :=
    ⟨hs.start rfl, rfl, rfl, fun _ => rfl, fun _ hch => by cases hch⟩
  refine Protocol.Obeys.simulate (P := ledger C) (S := fun o => ∃ q, o = .db q) (R := Writing i s)
    (fun _ _ _ _ _ _ => trivial) ?_ (.lift (Prog.all_of_forall (fun q => ⟨q, rfl⟩) p)) hfresh
    (Protocol.obeys_lift.mpr h)
  rintro s₁ g _ r s₂ hR ⟨q, rfl⟩ hasks ⟨x, -, hstep⟩
  obtain ⟨hfits, hinv, hchange⟩ := hR.ledger.statement (C := C)
    (Function.update_self i (some g) fun _ => none) hasks hstep
  rw [Function.update_idem] at hinv
  have hbefore := hR.same hasks.2
  obtain ⟨y, db', rfl, -, rfl⟩ := handle_db hstep
  refine ⟨_, ⟨rfl, hfits⟩, hinv, hR.cache, hR.flights, fun hnone => ?_, fun ch hch => ?_⟩
  · rcases hchange with ⟨-, hsame⟩ | ⟨ch, hch, -⟩
    · exact hsame.trans hbefore
    · cases hnone.symm.trans hch
  · rcases hchange with ⟨hnone, -⟩ | ⟨ch', hch', -, hchanged⟩
    · cases hnone.symm.trans hch
    · obtain rfl := Option.some.inj (hch.symm.trans hch')
      rw [← hbefore]
      exact hchanged

/-- A writer whose transaction is over has no statements ahead. -/
theorem Writing.over (h : Writing i s s' g) (hphase : g.phase = .outside) :
    LedgerInv s' fun _ => none := by
  have hret := h.ledger.ret (Function.update_self i (some g) fun _ => none) hphase
  rw [Function.update_idem, Function.update_eq_self] at hret
  exact hret

/-- One that has changed nothing leaves everything in order. -/
theorem Writing.orderly (h : Writing i s s' g) (hs : Orderly C s) (hphase : g.phase = .outside)
    (hnone : g.change = none) : Orderly C s' := by
  refine ⟨h.over hphase, rfl, ?_, ?_⟩
  · rw [h.flights]
    exact hs.intact.flights
  · rw [h.same hnone, h.cache]
    exact hs.intact.cache

/-- One that has made a change owes the entries under its keys. -/
theorem Writing.owing (h : Writing i s s' g) (hs : Orderly C s) (hphase : g.phase = .outside)
    {ch : Change} (hch : g.change = some ch) : Owing C ch s' := by
  have hchanged := h.changed ch hch
  refine ⟨h.over hphase, ?_, ?_, ?_, hchanged.find_self⟩
  · rw [h.flights]
    exact hs.intact.flights
  · rw [h.cache]
    exact hs.intact.cache.tables (fun _ hK => hK.elim) fun key hkey => hchanged.tableText_eq hkey
  · unfold Tables.totalCount
    rw [hchanged.counts, Function.update_self]
    rfl

omit [DecidableEq ι] in
/-- What has been left in order owes nothing, also not what a writer writes anyway. -/
theorem Orderly.owing (h : Orderly C s) (ch : Change)
    (hcount : s.db.store.committed.totalCount ch.key.2 = ch.count)
    (hlikedAt : (s.db.store.committed.find ch.key).map LikesRow.createdAt = ch.likedAt) :
    Owing C ch s :=
  ⟨h.ledger, h.intact.flights, h.intact.cache.mono fun _ hK => hK.elim, hcount, hlikedAt⟩

/-- What a call does with neither the database, the cache nor the flights. -/
theorem own_elsewhere {p : Svc α} (hp : p.All SvcOp.Elsewhere) (h : Orderly C s) :
    (onItsOwn cfg i).Obeys (fun s' _ => Orderly C s' ∧ s'.db = s.db) s p := by
  refine Protocol.obeys_of_all_of_keeps (I := fun s' => Orderly C s' ∧ s'.db = s.db) ?_ hp ⟨h, rfl⟩
  rintro s₁ o ⟨h₁, hdb₁⟩ ho
  refine ⟨trivial, ?_⟩
  rintro r s₂ ⟨x, -, hs⟩
  obtain ⟨hdb, hsame⟩ := handle_elsewhere hs ho.offDb ho.ne_cache
  refine ⟨⟨h₁.ledger.env hdb, rfl, ?_, ?_⟩, hdb.trans hdb₁⟩
  · rw [handle_flights hs ho.ne_flight]
    exact h₁.intact.flights
  · rw [hdb, hsame]
    exact h₁.intact.cache

theorem own_perform {o : SvcOp} (ho : o.Elsewhere) (h : Orderly C s) :
    (onItsOwn cfg i).Obeys (fun s' _ => Orderly C s' ∧ s'.db = s.db) s (perform o) :=
  own_elsewhere ⟨ho, fun _ => trivial⟩ h

theorem own_validateContent (h : Orderly C s) (item : Item) :
    (onItsOwn cfg i).Obeys (fun s' _ => Orderly C s' ∧ s'.db = s.db) s (validateContent item) := by
  refine own_elsewhere ((validateContent_ofBreaker item).mono fun o ho => ?_) h
  cases o with
  | db q => exact ho
  | cache o => exact ho
  | flight o => exact ho
  | _ => trivial

/-- The writes of the count and the status and the deletion of the pages pay what is owed. -/
theorem own_notify {ch : Change} (h : Owing C ch s) {Q : World ι → β → Prop} {rest : Svc β}
    (hrest : ∀ s', Orderly C s' → s'.db = s.db → (onItsOwn cfg i).Obeys Q s' rest) :
    (onItsOwn cfg i).Obeys Q s ((writeCount cfg ch.key.2 ch.count).bind fun _ =>
      (updateStatusCache cfg C ch.key.1 ch.key.2 ch.likedAt).bind fun _ =>
      (invalidateUserLikes ch.key.1 ch.key.2.1).bind fun _ => rest) := by
  have hcount : TextRight C s.db.store.committed (countCacheKey ch.key.2) ch.count.toString := by
    rw [← h.count]
    exact textRight_of_tableText rfl
  have hstatus : TextRight C s.db.store.committed (statusCacheKey ch.key.1 ch.key.2)
      (statusText C ch.likedAt) := by
    rw [← h.likedAt]
    exact textRight_of_tableText rfl
  -- the count
  let c₁ := s.cache.stored true (fun _ => ch.count.toString) [countCacheKey ch.key.2]
  have hc₁ : CacheRight C s.db.store.committed _ c₁ :=
    h.cache.stored (fun _ => ch.count.toString) [countCacheKey ch.key.2] fun key hkey => by
      rw [List.mem_singleton.mp hkey]
      exact hcount
  refine (own_cache (Q := fun s' _ => s' = { s with cache := c₁ }) (Cache.set_fixed _ _ _)
    (Cache.exec_set true s.cache (fun _ => ch.count.toString) _ _) rfl).bind ?_
  rintro s₁ _ rfl
  -- the status
  have hc₂ := hc₁.stored (fun _ => statusText C ch.likedAt)
    [statusCacheKey ch.key.1 ch.key.2] fun key hkey => by
      rw [List.mem_singleton.mp hkey]
      exact hstatus
  refine (own_cache (s := { s with cache := c₁ }) (Q := fun s' _ => s' = { s with cache := _ })
    (Cache.set_fixed _ _ _) (Cache.exec_set true c₁ (fun _ => statusText C ch.likedAt) _ _)
    rfl).bind ?_
  rintro s₂ _ rfl
  -- the pages
  unfold invalidateUserLikes
  simp only [Prog.bind_eq, Prog.bind_assoc]
  refine solo_op fun x s₃ r _ hs₃ => ?_
  obtain ⟨y, c₃, rfl, hc, rfl⟩ := handle_cache hs₃
  have hc₃ : CacheRight C s.db.store.committed _ c₃ := hc₂.of_lookup fun layer key => by
    rcases Cache.handle_lookup hc layer key with hsame | hnone | ⟨v, hstore, -⟩
    · exact Or.inl hsame
    · exact Or.inr hnone
    · cases hstore
  have hc₄ := hc₃.without [.ul ch.key.1 "_", .ul ch.key.1 ch.key.2.1]
  refine (own_cache (s := { s with cache := c₃ }) (Q := fun s' _ => s' = { s with cache := _ })
    (Cache.delMany_fixed _) (Cache.exec_delMany c₃ _) rfl).bind ?_
  rintro s₄ _ rfl
  refine hrest _ ⟨h.ledger.env rfl, rfl, h.flights, hc₄.mono fun key hkey => ?_⟩ rfl
  obtain ⟨⟨⟨hkeys, hnotCount⟩, hnotStatus⟩, hnotPage⟩ := hkey
  rcases hkeys with rfl | rfl | ⟨filterKey, rfl, rfl | rfl⟩
  · exact hnotCount List.mem_cons_self
  · exact hnotStatus List.mem_cons_self
  · exact hnotPage List.mem_cons_self
  · exact hnotPage (List.mem_cons_of_mem _ List.mem_cons_self)

/-- A repository function, with what its ledger and what its answers say. -/
theorem own_repo {p : Repo α} {Q : Ledger → Except SqlxError α → Prop} {T : Except SqlxError α → Prop}
    (hledger : (ledgerStatements C).Obeys Q .fresh p)
    (hown : (ownStatements cfg i).Obeys (fun _ => T) s p) (hs : LedgerInv s fun _ => none) :
    (onItsOwn cfg i).Obeys (fun s' result => ∃ g result', result = result'.mapError mapDbError ∧
      T result' ∧ Q g result' ∧ Writing i s s' g) s (db p) := by
  have hboth := (own_writes cfg i hledger hs).and (Protocol.obeys_lift.mpr hown)
  refine hboth.bind fun s' result h => ?_
  obtain ⟨⟨g, hQ, hwriting⟩, hT⟩ := h
  exact ⟨g, result, rfl, hT, hQ, hwriting⟩

/-- The response gives the count and the status of the tables. -/
structure ActionAgrees (t : Tables) (key : LikeKey) (response : LikeActionResponse) : Prop where
  count : response.count = t.totalCount key.2
  liked : response.liked = (t.find key).isSome
  likedAt : response.likedAt = (t.find key).map LikesRow.createdAt

theorem actionAgrees_of_owing {ch : Change} {t : Tables} (hcount : t.totalCount ch.key.2 = ch.count)
    (hlikedAt : (t.find ch.key).map LikesRow.createdAt = ch.likedAt)
    (alreadyExisted wasLiked : Option Bool) :
    ActionAgrees t ch.key ⟨ch.likedAt.isSome, alreadyExisted, wasLiked, ch.count, ch.likedAt⟩ := by
  refine ⟨hcount.symm, ?_, hlikedAt.symm⟩
  rw [← hlikedAt, Option.isSome_map]

/-- The end of a writer. -/
def ActionDone (C : Codec) (key : LikeKey) (s : World ι)
    (result : Except AppError LikeActionResponse) : Prop :=
  Orderly C s ∧ ∀ response, result = .ok response → ActionAgrees s.db.store.committed key response

omit [DecidableEq ι] in
theorem actionDone_error {key : LikeKey} (h : Orderly C s) (e : AppError) :
    ActionDone C key s (.error e) :=
  ⟨h, fun response hresponse => by cases hresponse⟩

theorem own_like (h : Orderly C s) (userId : Uuid) (item : Item) :
    (onItsOwn cfg i).Obeys (ActionDone C (userId, item)) s (like cfg C userId item) := by
  refine own_attempt (own_validateContent h item) (fun s₁ _ h₁ => ?_)
    fun s₁ e h₁ => actionDone_error h₁.1 e
  obtain ⟨h₁, -⟩ := h₁
  refine own_attempt (own_repo (C := C) (insertLike_ledger userId item) (insertLike_own rfl userId item)
    h₁.ledger) (fun s₂ result h₂ => ?_) fun s₂ e h₂ => ?_
  · obtain ⟨g, result', heq, hsays, hledger, hwriting⟩ := h₂
    cases result' with
    | error e => cases heq
    | ok result' =>
    obtain rfl := Except.ok.inj heq
    cases result with
    | inserted row count =>
      obtain rfl := hledger
      have howing := hwriting.owing h₁ rfl rfl
      refine own_notify howing fun s₃ h₃ hdb => ?_
      refine (own_perform (o := .publish _ _) trivial h₃).bind fun s₄ _ h₄ => ?_
      refine ⟨h₄.1, fun response hresponse => ?_⟩
      rw [← Except.ok.inj hresponse, h₄.2, hdb]
      exact actionAgrees_of_owing howing.count howing.likedAt (some false) none
    | alreadyExisted row count =>
      obtain ⟨hrow, hcount⟩ := hsays
      obtain ⟨hphase, hnone, -, -⟩ := hledger
      have h₂ := hwriting.orderly h₁ hphase hnone
      rw [← hwriting.same hnone] at hrow hcount
      have hset := own_set cfg i h₂.intact (countCacheKey item) count.toString
        cfg.cacheTtlLikeCountsSecs
        (textRight_of_tableText (by rw [hcount]; rfl))
      refine hset.bind fun s₃ _ h₃ => ?_
      have hset' := own_set cfg i h₃ (statusCacheKey userId item)
        (statusText C (some row.createdAt)) cfg.cacheTtlLikeStatusSecs
        (textRight_of_tableText (by rw [← hrow]; rfl))
      refine hset'.bind fun s₄ _ h₄ => ⟨⟨h₂.ledger.env h₄.db, ?_⟩, fun response hresponse => ?_⟩
      · rw [h₄.db]
        exact h₄
      · rw [← Except.ok.inj hresponse, h₄.db]
        let ch : Change := ⟨(userId, item), some row.createdAt, count⟩
        exact actionAgrees_of_owing (show _ = ch.count from hcount.symm) hrow (some true) none
    | concurrentlyRemoved count => exact hsays.elim
  · obtain ⟨g, result', heq, -, hledger, hwriting⟩ := h₂
    cases result' with
    | error e' =>
      obtain ⟨hphase, hnone, -, -⟩ := hledger
      exact actionDone_error (hwriting.orderly h₁ hphase hnone) e
    | ok result' => cases heq

theorem own_unlike (h : Orderly C s) (userId : Uuid) (item : Item) :
    (onItsOwn cfg i).Obeys (ActionDone C (userId, item)) s (unlike cfg C userId item) := by
  refine own_attempt (own_validateContent h item) (fun s₁ _ h₁ => ?_)
    fun s₁ e h₁ => actionDone_error h₁.1 e
  obtain ⟨h₁, -⟩ := h₁
  refine own_attempt (own_repo (C := C) (deleteLike_ledger userId item) (deleteLike_own rfl userId item)
    h₁.ledger) (fun s₂ result h₂ => ?_) fun s₂ e h₂ => ?_
  · obtain ⟨g, result', heq, hsays, hledger, hwriting⟩ := h₂
    cases result' with
    | error e => cases heq
    | ok result' =>
    obtain rfl := Except.ok.inj heq
    obtain ⟨wasLiked, count⟩ := result
    have howing : Owing C ⟨(userId, item), none, count⟩ s₂ := by
      cases wasLiked with
      | true =>
        obtain rfl := hledger
        exact hwriting.owing h₁ rfl rfl
      | false =>
        obtain ⟨hnoRow, hcount⟩ := hsays
        obtain ⟨hphase, hnone, -, -⟩ := hledger
        rw [← hwriting.same hnone] at hnoRow hcount
        exact (hwriting.orderly h₁ hphase hnone).owing _ hcount.symm (by rw [hnoRow]; rfl)
    refine own_notify howing fun s₃ h₃ hdb => ?_
    have hdone : ∀ s₄, Orderly C s₄ → s₄.db = s₃.db → ∀ wasLiked', ActionDone C (userId, item) s₄
        (.ok ⟨false, none, some wasLiked', count, none⟩) := by
      refine fun s₄ h₄ hdb₄ wasLiked' => ⟨h₄, fun response hresponse => ?_⟩
      rw [← Except.ok.inj hresponse, hdb₄, hdb]
      exact actionAgrees_of_owing howing.count howing.likedAt none (some wasLiked')
    cases wasLiked with
    | false => exact hdone s₃ h₃ rfl false
    | true =>
      refine (own_perform (o := .now) trivial h₃).bind fun s₄ timestamp h₄ => ?_
      refine (own_perform (o := .publish _ _) trivial h₄.1).bind fun s₅ _ h₅ => ?_
      exact hdone s₅ h₅.1 (h₅.2.trans h₄.2) true
  · obtain ⟨g, result', heq, -, hledger, hwriting⟩ := h₂
    cases result' with
    | error e' =>
      obtain ⟨hphase, hnone, -, -⟩ := hledger
      exact actionDone_error (hwriting.orderly h₁ hphase hnone) e
    | ok result' => cases heq

end Writers

/-! ## Every call -/

/-- The reply that the tables give, without any cache. -/
def Request.Uncached (C : Codec) (t : Tables) : Request → Reply → Prop
  | mutation m, .action response => ActionAgrees t m.key response
  | getCount item, .count result => result = ⟨item.1, item.2, t.totalCount item⟩
  | batchCounts items, .counts results =>
    results = items.map fun item => ⟨item.1, item.2, t.totalCount item⟩
  | getStatus userId item, .status response => response = statusIn t userId item
  | batchStatuses userId items, .statuses results =>
    results = items.map fun item => statusResult item (statusIn t userId item)
  | getUserLikes userId contentTypeFilter none limit, .page response =>
    response = keysetPage C t userId contentTypeFilter none (clampLimit limit)
  | getUserLikes userId contentTypeFilter (some cursor) limit, .page response =>
    ∃ c, Cursor.decode C cursor = some c ∧
      response = keysetPage C t userId contentTypeFilter (some (c.timestamp, c.id)) (clampLimit limit)
  | _, _ => False

/-- The request does not filter on the content type `_`, whose pages have the key of the pages
    without a filter. -/
def Request.Named : Request → Prop
  | getUserLikes _ contentTypeFilter _ _ => contentTypeFilter ≠ some "_"
  | _ => True

/-- The request is one for counts or statuses, or a write. -/
def Request.OfItems : Request → Prop
  | getUserLikes _ _ _ _ => False
  | _ => True

theorem Request.OfItems.named {k : Request} (h : k.OfItems) : k.Named := by
  cases k with
  | getUserLikes _ _ _ _ => exact h.elim
  | _ => trivial

instance : DecidablePred Request.OfItems
  | .mutation _ => isTrue trivial
  | .getCount _ => isTrue trivial
  | .batchCounts _ => isTrue trivial
  | .getStatus _ _ => isTrue trivial
  | .batchStatuses _ _ => isTrue trivial
  | .getUserLikes _ _ _ _ => isFalse id

instance : DecidablePred Request.Named
  | .mutation _ => isTrue trivial
  | .getCount _ => isTrue trivial
  | .batchCounts _ => isTrue trivial
  | .getStatus _ _ => isTrue trivial
  | .batchStatuses _ _ => isTrue trivial
  | .getUserLikes _ contentTypeFilter _ _ =>
    inferInstanceAs (Decidable (contentTypeFilter ≠ some "_"))

section Calls

variable {cfg : Config} {C : Codec} {i : ι} {s : World ι} {α : Type}

/-- A call that reads. -/
theorem own_reader (h : Orderly C s) {k : Request} {p : Svc (Except AppError α)} {f : α → Reply}
    (hp : (onItsOwn cfg i).Obeys (fun s' result => Intact C s.db s' ∧ ∀ a, result = .ok a →
      k.Uncached C s.db.store.committed (f a)) s p) :
    (onItsOwn cfg i).Obeys (fun s' result => Orderly C s' ∧ ∀ reply, result = .ok reply →
      k.Uncached C s'.db.store.committed reply) s (p.bind fun r => .ret (r.map f)) := by
  refine hp.bind fun s' result hQ => ?_
  obtain ⟨hintact, hresult⟩ := hQ
  refine ⟨⟨h.ledger.env hintact.db, ?_⟩, fun reply hreply => ?_⟩
  · rw [hintact.db]
    exact hintact
  · rw [hintact.db]
    cases result with
    | error e => cases hreply
    | ok a =>
      rw [← Except.ok.inj hreply]
      exact hresult a rfl

/-- A call that writes. -/
theorem own_mutation (h : Orderly C s) (m : Mutation) :
    (onItsOwn cfg i).Obeys (fun s' result => Orderly C s' ∧ ∀ reply, result = .ok reply →
      (Request.mutation m).Uncached C s'.db.store.committed reply) s
      ((Request.mutation m).prog cfg C) := by
  have hm : (onItsOwn cfg i).Obeys (ActionDone C m.key) s (m.prog cfg C) := by
    cases m with
    | like userId item => exact own_like h userId item
    | unlike userId item => exact own_unlike h userId item
  refine hm.bind fun s' result hdone => ⟨hdone.1, fun reply hreply => ?_⟩
  cases result with
  | error e => cases hreply
  | ok response =>
    rw [← Except.ok.inj hreply]
    exact hdone.2 response rfl

variable (cfg) in
/-- Every call on its own keeps everything in order and answers with what the tables give. -/
theorem service_serves (hC : C.RoundTrips) :
    Pool.Serves (service (ι := ι) cfg C) RedisWorks Request.Named (Orderly C)
      fun k s result => ∀ reply, result = .ok reply → k.Uncached C s.db.store.committed reply where
  prog s i k s' hk h hs := by
    obtain rfl : s = s' := Option.some.inj hs
    cases k with
    | mutation m => exact own_mutation h m
    | getCount item =>
      refine own_reader h ((own_getCount h.intact item).mono fun s' result hQ => ⟨hQ.1, ?_⟩)
      exact fun count hcount => hQ.2 count hcount
    | batchCounts items =>
      refine own_reader h ((own_batchCounts h.intact items).mono fun s' result hQ => ⟨hQ.1, ?_⟩)
      exact fun counts hcounts => hQ.2 counts hcounts
    | getStatus userId item =>
      refine own_reader h ((own_getStatus hC h.intact userId item).mono fun s' result hQ => ⟨hQ.1, ?_⟩)
      exact fun status hstatus => hQ.2 status hstatus
    | batchStatuses userId items =>
      have hunique := h.ledger.db.consistent.unique
      refine own_reader h ((own_batchStatuses hC h.intact hunique userId items).mono
        fun s' result hQ => ⟨hQ.1, ?_⟩)
      exact fun statuses hstatuses => hQ.2 statuses hstatuses
    | getUserLikes userId contentTypeFilter cursor limit =>
      cases cursor with
      | none =>
        obtain ⟨hlow, hhigh⟩ := clampLimit_bounds limit
        refine own_reader h ((own_firstPage hC h.intact hk hlow hhigh).mono
          fun s' result hQ => ⟨hQ.1, ?_⟩)
        exact fun page hpage => hQ.2 page hpage
      | some cursor =>
        refine own_reader h ((own_nextPage h.intact cursor).mono fun s' result hQ => ⟨hQ.1, ?_⟩)
        exact fun page hpage => hQ.2 page hpage
  env s x s' h hs := by
    cases x with
    | evict layer key =>
      cases hs
      exact ⟨h.ledger.env rfl, rfl, h.intact.flights, h.intact.cache.evict layer key⟩
    | _ => cases hs

/-- A process that has just started is in order. -/
theorem orderly_init {init : ServiceConfig ι}
    (hinit : (service cfg C).machine.init init) (hflights : init.shared.flights = .empty) :
    Orderly C init.shared := by
  obtain ⟨⟨⟨t, ht, hstore⟩, hcache, -⟩, -⟩ := hinit
  refine ⟨ledgerInv_ofTables ht hstore, rfl, ?_, ?_⟩
  · rw [hflights]
    exact registered_empty
  · rw [hcache]
    exact cacheRight_empty

/-- In every run of likes, unlikes and reads of counts and statuses, one after another, what a call
    answers is what the tables say at the time: the item's total count, and whether and since when
    the user likes it. -/
theorem uncached_of_sequential (cfg : Config) (C : Codec) (hC : C.RoundTrips)
    {init c c' : ServiceConfig ι} {acts before after : List (Act ι Request SvcChoice)}
    {a : Act ι Request SvcChoice} {k : Request} {reply : Reply}
    (hinit : (service cfg C).machine.init init) (hflights : init.shared.flights = .empty)
    (hmeets : (service cfg C).machine.Meets (Pool.OneByOne RedisWorks Request.OfItems) init acts)
    (hsplit : acts = before ++ a :: after) (hrun : (service cfg C).machine.run init before = some c)
    (hstep : (service cfg C).machine.step c a = some c')
    (hanswer : Pool.Answers c c' i k (.ok reply)) :
    k.Uncached C c'.shared.db.store.committed reply := by
  have hnamed : (service cfg C).machine.Meets (Pool.OneByOne RedisWorks Request.Named) init acts :=
    hmeets.mono fun _ _ h => h.mono fun _ hk => hk.named
  have hidle : ∀ j, ¬ (init.calls j).Active := by
    intro j
    rw [hinit.2 j]
    exact id
  exact (service_serves cfg hC).answers (orderly_init hinit hflights) hidle hnamed hsplit hrun hstep
    hanswer reply rfl

/-- A like; its status expires in L1 and is then asked for. -/
def likeThenStatus : List (Act Bool Request SvcChoice) :=
  commitSteps false (.like 1 ("post", 7)) ++ refreshSteps false ++ .step false (.published true) ::
    .env (.evict .l1 (.ls 1 "post" 7)) :: .start true (.getStatus 1 ("post", 7)) ::
    List.replicate 2 (.step true (.cache .ok))

theorem uncached_of_sequential_likeThenStatus :
    ∃ c : ServiceConfig Bool, (service Config.default Codec.plain).machine.run
        ⟨World.new, fun _ => .idle⟩ (likeThenStatus ++ [.step true (.cache .ok)]) = some c ∧
      c.calls true = .returned (.getStatus 1 ("post", 7)) (.ok (.status ⟨true, some .epoch⟩)) ∧
      (Request.getStatus 1 ("post", 7)).Uncached Codec.plain c.shared.db.store.committed
        (.status ⟨true, some .epoch⟩) := by
  have hview : ((service Config.default Codec.plain).machine.run
      (⟨World.new, fun _ => .idle⟩ : ServiceConfig Bool)
      (likeThenStatus ++ [.step true (.cache .ok)])).map (fun c => (c.calls true).result) =
      some (some (.getStatus 1 ("post", 7), .ok (.status ⟨true, some .epoch⟩))) := by
    decide +kernel
  have hbefore : ((service Config.default Codec.plain).machine.run
      (⟨World.new, fun _ => .idle⟩ : ServiceConfig Bool) likeThenStatus).map (fun c =>
        (c.calls true).result.isSome) = some false := by
    decide +kernel
  have hchecks : (service Config.default Codec.plain).machine.meetsAll
      (fun c a => decide (Pool.OneByOne RedisWorks Request.OfItems c a))
      (⟨World.new, fun _ => .idle⟩ : ServiceConfig Bool)
      (likeThenStatus ++ [.step true (.cache .ok)]) = true := by
    decide +kernel
  obtain ⟨c', hrun, hresult⟩ := Option.map_eq_some_iff.mp hview
  obtain ⟨c, hrun₁, hstep, hanswer⟩ := Pool.answers_of_result hrun hbefore hresult
  refine ⟨c', hrun, CallState.returned_of_result hresult, ?_⟩
  exact uncached_of_sequential Config.default Codec.plain Codec.plain_roundTrips
    ⟨⟨⟨_, consistent_empty, rfl⟩, rfl, rfl⟩, fun _ => rfl⟩ rfl
    (Machine.meets_of_meetsAll (fun _ _ h => of_decide_eq_true h) hchecks) rfl hrun₁ hstep hanswer

/-- In every run of calls one after another in which no call filters on the content type `_`, a
    first page is the one that an uncached keyset query with its limit gives at the time. -/
theorem pages_of_sequential (cfg : Config) (C : Codec) (hC : C.RoundTrips)
    {init c c' : ServiceConfig ι} {acts before after : List (Act ι Request SvcChoice)}
    {a : Act ι Request SvcChoice} {userId : Uuid} {contentTypeFilter : Option String} {limit : I64}
    {reply : Reply} (hinit : (service cfg C).machine.init init)
    (hflights : init.shared.flights = .empty)
    (hmeets : (service cfg C).machine.Meets (Pool.OneByOne RedisWorks Request.Named) init acts)
    (hsplit : acts = before ++ a :: after) (hrun : (service cfg C).machine.run init before = some c)
    (hstep : (service cfg C).machine.step c a = some c')
    (hanswer : Pool.Answers c c' i (.getUserLikes userId contentTypeFilter none limit) (.ok reply)) :
    reply = .page (keysetPage C c'.shared.db.store.committed userId contentTypeFilter none
      (clampLimit limit)) := by
  have hidle : ∀ j, ¬ (init.calls j).Active := by
    intro j
    rw [hinit.2 j]
    exact id
  have hreply := (service_serves cfg hC).answers (orderly_init hinit hflights) hidle hmeets hsplit
    hrun hstep hanswer reply rfl
  cases reply with
  | page response =>
    have hresponse : response = _ := hreply
    rw [hresponse]
  | _ => exact hreply.elim

/-- A like, and the first page of the user's likes. -/
def likeThenPage : List (Act Bool Request SvcChoice) :=
  commitSteps false (.like 1 ("post", 7)) ++ refreshSteps false ++ .step false (.published true) ::
    .start true (.getUserLikes 1 none none 1) :: List.replicate 2 (.step true (.cache .ok)) ++
    [.step true (.db (.run .epoch [])), .step true (.cache .ok)]

theorem pages_of_sequential_likeThenPage :
    ∃ c : ServiceConfig Bool, (service Config.default Codec.plain).machine.run
        ⟨World.new, fun _ => .idle⟩ (likeThenPage ++ [.step true (.cache .ok)]) = some c ∧
      c.calls true = .returned (.getUserLikes 1 none none 1)
        (.ok (.page ⟨[⟨"post", 7, .epoch⟩], none, false⟩)) ∧
      Reply.page ⟨[⟨"post", 7, .epoch⟩], none, false⟩ =
        .page (keysetPage Codec.plain c.shared.db.store.committed 1 none none (clampLimit 1)) := by
  have hview : ((service Config.default Codec.plain).machine.run
      (⟨World.new, fun _ => .idle⟩ : ServiceConfig Bool)
      (likeThenPage ++ [.step true (.cache .ok)])).map (fun c => (c.calls true).result) =
      some (some (.getUserLikes 1 none none 1,
        .ok (.page ⟨[⟨"post", 7, .epoch⟩], none, false⟩))) := by
    decide +kernel
  have hbefore : ((service Config.default Codec.plain).machine.run
      (⟨World.new, fun _ => .idle⟩ : ServiceConfig Bool) likeThenPage).map (fun c =>
        (c.calls true).result.isSome) = some false := by
    decide +kernel
  have hchecks : (service Config.default Codec.plain).machine.meetsAll
      (fun c a => decide (Pool.OneByOne RedisWorks Request.Named c a))
      (⟨World.new, fun _ => .idle⟩ : ServiceConfig Bool)
      (likeThenPage ++ [.step true (.cache .ok)]) = true := by
    decide +kernel
  obtain ⟨c', hrun, hresult⟩ := Option.map_eq_some_iff.mp hview
  obtain ⟨c, hrun₁, hstep, hanswer⟩ := Pool.answers_of_result hrun hbefore hresult
  refine ⟨c', hrun, CallState.returned_of_result hresult, ?_⟩
  exact pages_of_sequential Config.default Codec.plain Codec.plain_roundTrips
    ⟨⟨⟨_, consistent_empty, rfl⟩, rfl, rfl⟩, fun _ => rfl⟩ rfl
    (Machine.meets_of_meetsAll (fun _ _ h => of_decide_eq_true h) hchecks) rfl hrun₁ hstep hanswer

end Calls

end SocialApi.Services
