import SocialApi.Services.RequestTexts
import SocialApi.Services.StoreOrder

/-!
# Stores in time

The counts, the statuses and the pages are written to the cache after they have been read or
committed, in steps of their own: a call can put into a layer what was right when it looked. The
entry is then wrong until some call writes or deletes it again.

* `InTime`: no call stores what has been overtaken by a commit since it was read, unless the call
  that has committed is yet to store or delete the entry; and no such call is dropped.
* `service_owes`: a call that is yet to settle an entry does so before it ends.
* `service_knows`: what has not been overtaken is right, and every wrong entry is left to a call
  that is yet to settle it.
* `entriesRight_of_meets`: so the entries are right whenever no call is in progress.
-/

namespace SocialApi.Services

open SocialApi.Concurrent SocialApi.Postgres SocialApi.Repositories

variable {ι : Type}

/-! ## Steps in time -/

/-- No Redis command fails. -/
def RedisUp (a : Act ι Request SvcChoice) : Prop := ∀ i, a ≠ .step i (.cache .fail)

variable [DecidableEq ι]

/-- What a call stores under a selected key has not been overtaken, or the call that has made the
    last change is another one that is yet to settle the entry. A call with an entry to settle is
    not dropped, and no request stores a page under the key of other pages. -/
structure InTime (C : Codec) (sel : CacheKey → Prop) (c : RecordedConfig ι)
    (a : Act ι Request SvcChoice) : Prop where
  stores : ∀ i k o f x cell, a = .step i x → c.calls i = .running k (.op (.cache o) f) →
    storedCell o = some cell → sel cell.2 →
    (order C c.shared.2).stale i cell.2 = false ∨
      ∃ j, j ≠ i ∧ (order C c.shared.2).debtor cell = some j
  drops : ∀ i cell, a = .drop i → sel cell.2 → (order C c.shared.2).debtor cell ≠ some i
  pages : ∀ i k key, a = .start i k → sel key → ¬ k.Mistakes key

variable {cfg : Config} {C : Codec} {sel : CacheKey → Prop}

/-! ## Entries to settle -/

/-- A call with an entry to settle is in progress, and owes it. -/
structure Owed (C : Codec) (sel : CacheKey → Prop) (s : World ι × List (Effect ι))
    (γ : ι → Option Ledger) : Prop where
  ledgers : LedgerInv s.1 γ
  owed : ∀ cell j, sel cell.2 → (order C s.2).debtor cell = some j →
    ∃ g ch due, γ j = some g ∧ g.change = some ch ∧ g.owes due ∧
      ∀ o, ch.Pays C due o → settles cell o = true

/-- Another call's ghost state is replaced. -/
theorem Owed.others {s s' : World ι × List (Effect ι)} {γ : ι → Option Ledger} {i : ι}
    {g : Option Ledger} (h : Owed C sel s γ) (hledger : LedgerInv s'.1 (Function.update γ i g))
    (hlog : s'.2 = s.2) (hi : ∀ cell, sel cell.2 → (order C s.2).debtor cell ≠ some i) :
    Owed C sel s' (Function.update γ i g) := by
  refine ⟨hledger, fun cell j hsel hj => ?_⟩
  rw [hlog] at hj
  obtain ⟨g', ch, due, hγ, howed⟩ := h.owed cell j hsel hj
  refine ⟨g', ch, due, ?_, howed⟩
  rw [Function.update_of_ne, hγ]
  rintro rfl
  exact hi cell hsel hj

/-- After an operation of call `i`. -/
theorem Owed.handle {s : World ι × List (Effect ι)} {t : World ι} {γ : ι → Option Ledger} {i : ι}
    {g : Ledger} {o : SvcOp} {x : SvcChoice} {r : o.Ans} (h : Owed C sel s γ) (hγ : γ i = some g)
    (hasks : (ledger C).asks g o) (hs : handle cfg s.1 i o x = some (t, r))
    (hledger : LedgerInv t (Function.update γ i (some (g.next C o r)))) :
    Owed C sel (t, s.2 ++ [⟨i, o, r, s.1, t⟩]) (Function.update γ i (some (g.next C o r))) := by
  refine ⟨hledger, fun cell j hsel hj => ?_⟩
  rw [order_snoc] at hj
  rcases Order.debtor_after hj with ⟨halters, hcall⟩ | ⟨-, hold, hnot⟩
  · -- the commit of a change, which the call now owes
    obtain rfl : i = j := hcall.symm
    cases o with
    | db q =>
      obtain ⟨-, -, ⟨-, hsame⟩ | ⟨ch, hch, -, hchanged⟩⟩ := h.ledgers.statement (C := C) hγ hasks hs
      · rw [Effect.alters_of_same (p := ⟨i, .db q, r, s.1, t⟩) hsame] at halters
        cases halters
      · have hkeys := Effect.keys_of_alters (p := ⟨i, .db q, r, s.1, t⟩) hchanged halters
        obtain ⟨due, haffects, hpays⟩ := ch.settled_of_keys C hkeys cell.1
        refine ⟨_, ch, due, Function.update_self _ _ _, hch, ?_, hpays⟩
        show Ledger.owing (g.changeAfter q r) due
        rw [hch]
        exact haffects
    | _ =>
      rw [Effect.alters_of_handle hs trivial] at halters
      cases halters
  · obtain ⟨g', ch, due, hγ', hch, howes, hpays⟩ := h.owed cell j hsel hold
    by_cases hji : j = i
    · subst hji
      obtain rfl := Option.some.inj (hγ.symm.trans hγ')
      have hnext : (g.next C o r).change = some ch ∧ (g.next C o r).owes due := by
        cases o with
        | db q =>
          -- after a change there are no statements
          have hnone := hasks.2
          rw [hch] at hnone
          cases hnone
        | _ =>
          refine ⟨hch, howes, fun ch' hch' hpaid => ?_⟩
          obtain rfl := Option.some.inj (hch.symm.trans hch')
          exact hnot ⟨rfl, hpays _ hpaid⟩
      exact ⟨_, ch, due, Function.update_self _ _ _, hnext.1, hnext.2, hpays⟩
    · exact ⟨g', ch, due, (Function.update_of_ne hji _ _).trans hγ', hch, howes, hpays⟩

variable (cfg C sel) in
theorem service_owes :
    Pool.Sound (service (ι := ι) cfg C).recorded (ledger C) Request.Ends (fun _ => .fresh)
      (Owed C sel) (InTime C sel) where
  init s hs := by
    refine ⟨(service_ledger cfg C).init s.1 hs.1, fun cell j _ hj => ?_⟩
    rw [hs.2] at hj
    cases hj
  prog := Request.obeys
  start c i k s γ _ h hγ hs := by
    cases hs
    refine h.others (h.ledgers.start hγ) rfl fun cell hsel hdebtor => ?_
    obtain ⟨g, -, -, hi, -⟩ := h.owed cell i hsel hdebtor
    rw [hγ] at hi
    cases hi
  handle c i x k o f s r γ g _ h hF hi hγ hasks hs := by
    obtain ⟨t, ht, rfl⟩ := Pool.recorded_handle hs
    obtain ⟨g', ⟨rfl, hfits⟩, hledger⟩ := (service_ledger cfg C).handle (Pool.forget c) i x k o f
      t r γ g trivial h.ledgers hF hi hγ hasks ht
    exact ⟨_, ⟨rfl, hfits⟩, h.handle hγ hasks ht hledger⟩
  ret s i k γ g a h hγ ha := by
    refine h.others (h.ledgers.ret hγ ha.1) rfl fun cell hsel hdebtor => ?_
    obtain ⟨g', -, due, hi, -, howes, -⟩ := h.owed cell i hsel hdebtor
    obtain rfl := Option.some.inj (hγ.symm.trans hi)
    exact ha.2.1 due howes
  drop c i k p s γ g hc h hF hi hγ hs := by
    cases hs
    exact h.others h.ledgers.drop rfl fun cell hsel => hc.drops i cell rfl hsel
  env c x s γ hc h hs := by
    obtain ⟨t, ht, rfl⟩ := Option.map_eq_some_iff.mp hs
    exact ⟨(service_ledger cfg C).env (Pool.forget c) x t γ trivial h.ledgers ht, h.owed⟩

/-! ## What a call knows and what an entry holds -/

/-- The ledgers of the logs. -/
def ledgersOf (γ : ι → Option TextLog) : ι → Option Ledger := Option.map TextLog.ledger ∘ γ

theorem ledgersOf_update (γ : ι → Option TextLog) (i : ι) (g : Option TextLog) :
    ledgersOf (Function.update γ i g) =
      Function.update (ledgersOf γ) i (g.map TextLog.ledger) :=
  Function.comp_update _ _ _ _

/-- What a call was told is what the tables give, unless it is overtaken, and an entry that is
    wrong is yet to be settled. -/
structure Known (C : Codec) (sel : CacheKey → Prop) (s : World ι × List (Effect ι))
    (γ : ι → Option TextLog) : Prop where
  ledgers : LedgerInv s.1 (ledgersOf γ)
  mistakes : ∀ i g key, γ i = some g → sel key → ¬ g.mistakes key
  seen : ∀ i g key text, γ i = some g → sel key → g.seen key = some text →
    (order C s.2).stale i key = false → tableText C s.1.db.store.committed key = some text
  entries : ∀ cell, sel cell.2 → EntryRight C s.1 cell ∨
    ∃ j, (order C s.2).debtor cell = some j

/-- The texts of a change are those of the changed tables. -/
theorem Changed.texts {t t' : Tables} {ch : Change} (h : Changed t ch t') {key : CacheKey}
    {text : String} (htext : ch.texts C key = some text) : tableText C t' key = some text := by
  rcases Option.or_eq_some_iff.mp htext with hcount | ⟨-, hstatus⟩
  · obtain ⟨rfl, htold⟩ := of_textAt hcount
    rw [← htold]
    show some (t'.totalCount ch.key.2).toString = _
    unfold Tables.totalCount
    rw [h.counts, Function.update_self]
    rfl
  · obtain ⟨rfl, htold⟩ := of_textAt hstatus
    rw [← htold, ← h.find_self]
    rfl

/-- A change tells the count and the status among its keys. -/
theorem Change.texts_of_keys {ch : Change} {key : CacheKey} (h : ch.Keys key)
    (hpage : IsPageKey key = false) : ch.texts C key ≠ none := by
  rcases h with rfl | rfl | ⟨filterKey, rfl, -⟩
  · simp [Change.texts]
  · simp [Change.texts, textAt]
  · cases hpage

section Knows

variable {s : World ι × List (Effect ι)} {t : World ι} {γ : ι → Option TextLog} {i : ι}
  {g : TextLog} {x : SvcChoice}

omit [DecidableEq ι] in
theorem ledgersOf_some (hγ : γ i = some g) : ledgersOf γ i = some g.ledger := by
  unfold ledgersOf
  rw [Function.comp_apply, hγ]
  rfl

/-- A statement tells what the tables give. -/
theorem Known.told (h : Known C sel s γ) (hγ : γ i = some g) {q : DbOp} {r : q.Ans}
    (hasks : g.asks (.db q)) (hs : handle cfg s.1 i (.db q) x = some (t, r)) {key : CacheKey}
    {text : String} (htells : tells C (.db q) r key = some text) :
    tableText C s.1.db.store.committed key = some text := by
  obtain ⟨y, db', -, hdb, -⟩ := handle_db hs
  cases r with
  | error e => cases htells
  | ok rows =>
    refine rowsTell_tableText hdb (fun hlooks => h.ledgers.db.view_of_opened ?_)
      h.ledgers.db.consistent htells
    rw [ledgerPhases_of (ledgersOf_some hγ)]
    have hphase := hasks.1
    cases hg : g.ledger.phase with
    | opened => rfl
    | _ =>
      rw [hg] at hphase
      cases q <;> first | exact hlooks.elim | exact hphase.elim

/-- What a statement tells its call is right afterwards, or was known before. -/
theorem Known.statement (h : Known C sel s γ) (hγ : γ i = some g) {q : DbOp} {r : q.Ans}
    (hasks : g.asks (.db q)) (hs : handle cfg s.1 i (.db q) x = some (t, r)) {key : CacheKey}
    (hsel : sel key) {text : String} (htext : (g.next C (.db q) r).seen key = some text)
    (hstale : ((order C s.2).after C ⟨i, .db q, r, s.1, t⟩).stale i key = false) :
    tableText C t.db.store.committed key = some text := by
  let p : Effect ι := ⟨i, .db q, r, s.1, t⟩
  have hold : tells C (.db q) r key = none → g.seen key = some text →
      ¬ (IsPageKey key = false ∧ p.alters C key = true) →
      tableText C t.db.store.committed key = some text := by
    intro htells hseen halters
    have hnot : ¬ (p.call = i ∧ p.informs C key = true) := by
      rintro ⟨-, hinforms⟩
      have hinforms : ((tells C (.db q) r key).isSome || !IsPageKey key && p.alters C key) = true :=
        hinforms
      rw [htells] at hinforms
      simp at hinforms
      exact halters hinforms
    obtain ⟨hstale, hsame⟩ := Order.stale_of_after hnot hstale
    exact (Effect.alters_eq_false.mp hsame).trans (h.seen i g key text hγ hsel hseen hstale)
  obtain ⟨-, -, hafter⟩ := h.ledgers.statement (C := C) (ledgersOf_some hγ) hasks hs
  rcases hafter with ⟨hnone, hsame⟩ | ⟨ch, hch, hq, hchanged⟩
  · cases htells : tells C (.db q) r key with
    | some told =>
      obtain rfl := Option.some.inj ((seen_of_tells hnone htells).symm.trans htext)
      rw [hsame]
      exact h.told hγ hasks hs htells
    | none =>
      rw [seen_of_not_tells hnone htells] at htext
      refine hold htells htext fun halters => ?_
      rw [Effect.alters_of_same (p := p) hsame] at halters
      cases halters.2
  · subst hq
    have htells : tells C (.db .commit) r key = none := by
      cases r <;> rfl
    have hseen : (g.next C (.db .commit) r).seen key = (ch.texts C key).or (g.seen key) := by
      rw [seen_next, hch, htells]
      rfl
    rw [hseen] at htext
    cases htexts : ch.texts C key with
    | some told =>
      rw [htexts] at htext
      cases htext
      exact hchanged.texts htexts
    | none =>
      rw [htexts] at htext
      refine hold htells htext fun halters => ?_
      have hkeys := Effect.keys_of_alters (p := p) hchanged halters.2
      exact Change.texts_of_keys hkeys halters.1 htexts

/-- An operation that tells nothing leaves what a call knows. -/
theorem Known.untold (h : Known C sel s γ) (hγ : γ i = some g) {o : SvcOp} {r : o.Ans}
    (hs : handle cfg s.1 i o x = some (t, r)) (ho : o.OffDb) {key : CacheKey} (hsel : sel key)
    (htells : tells C o r key = none) {text : String} (htext : g.seen key = some text)
    (hstale : ((order C s.2).after C ⟨i, o, r, s.1, t⟩).stale i key = false) :
    tableText C t.db.store.committed key = some text := by
  have hnot : ¬ ((⟨i, o, r, s.1, t⟩ : Effect ι).call = i ∧
      Effect.informs C ⟨i, o, r, s.1, t⟩ key = true) := by
    rintro ⟨-, hinforms⟩
    have hinforms : ((tells C o r key).isSome ||
      !IsPageKey key && Effect.alters C ⟨i, o, r, s.1, t⟩ key) = true := hinforms
    rw [htells, Effect.alters_of_handle hs ho, Bool.and_false] at hinforms
    cases hinforms
  rw [handle_offDb hs ho]
  exact h.seen i g key text hγ hsel htext (Order.stale_of_after hnot hstale).1

/-- What Redis tells a call is right, unless the entry is yet to be settled. -/
theorem Known.cached (h : Known C sel s γ) (hγ : γ i = some g) {o : Cache.Op} {r : o.Ans}
    (hs : handle cfg s.1 i (.cache o) x = some (t, r)) {key : CacheKey} (hsel : sel key)
    {text : String} (htext : (g.next C (.cache o) r).seen key = some text)
    (hstale : ((order C s.2).after C ⟨i, .cache o, r, s.1, t⟩).stale i key = false) :
    tableText C t.db.store.committed key = some text := by
  have htext : (tells C (.cache o) r key).or (g.seen key) = some text := htext
  cases htells : tells C (.cache o) r key with
  | none =>
    rw [htells] at htext
    exact h.untold hγ hs trivial hsel htells htext hstale
  | some told =>
    rw [htells] at htext
    cases htext
    have hinforms : Effect.informs C ⟨i, .cache o, r, s.1, t⟩ key = true := by
      show ((tells C (.cache o) r key).isSome || _) = true
      rw [htells]
      rfl
    have hdebtor := Order.debtor_of_after (p := ⟨i, .cache o, r, s.1, t⟩) hinforms rfl hstale
    rw [handle_offDb hs trivial]
    rcases h.entries (.redis, key) hsel with hright | ⟨j, hj⟩
    · exact hright _ (lookup_of_tells hs htells)
    · rw [hdebtor] at hj
      cases hj

/-- After an operation an entry is right, or yet to be settled. -/
theorem Known.entry (h : Known C sel s γ) (hγ : γ i = some g) {o : SvcOp} {r : o.Ans}
    (hasks : g.asks o) (hs : handle cfg s.1 i o x = some (t, r)) (hup : x ≠ .cache .fail)
    (hstores : ∀ o' cell, o = .cache o' → storedCell o' = some cell → sel cell.2 →
      (order C s.2).stale i cell.2 = false ∨ ∃ j, j ≠ i ∧ (order C s.2).debtor cell = some j)
    {cell : Cache.Layer × CacheKey} (hsel : sel cell.2) :
    EntryRight C t cell ∨
      ∃ j, ((order C s.2).after C ⟨i, o, r, s.1, t⟩).debtor cell = some j := by
  let p : Effect ι := ⟨i, o, r, s.1, t⟩
  by_cases halters : p.alters C cell.2 = true
  · exact Or.inr ⟨i, Order.debtor_of_alters halters⟩
  have halters := Bool.eq_false_iff.mpr halters
  have htables : tableText C t.db.store.committed cell.2 =
      tableText C s.1.db.store.committed cell.2 := (Effect.alters_eq_false (p := p)).mp halters
  have hstays : ∀ j, (order C s.2).debtor cell = some j → ¬ (j = i ∧ settles cell o = true) →
      ∃ j, ((order C s.2).after C p).debtor cell = some j :=
    fun j hj hnot => ⟨j, Order.debtor_kept (p := p) halters hj hnot⟩
  -- an entry that the operation leaves alone
  have hkept : settles cell o = false → t.cache.lookup cell.1 cell.2 = s.1.cache.lookup cell.1 cell.2 →
      EntryRight C t cell ∨ ∃ j, ((order C s.2).after C p).debtor cell = some j := by
    intro hsettles hcache
    rcases h.entries cell hsel with hright | ⟨j, hj⟩
    · exact Or.inl (hright.congr htables (Or.inl hcache))
    · refine Or.inr (hstays j hj fun hpaid => ?_)
      rw [hsettles] at hpaid
      cases hpaid.2
  by_cases hcacheOp : ∃ o', o = .cache o'
  · obtain ⟨o, rfl⟩ := hcacheOp
    rcases handle_entry hs hup cell with ⟨text, hstore, hnew⟩ | hnone | ⟨hsettles, hcache⟩
    · have hcell : storedCell o = some cell := by
        unfold storedCell
        rw [hstore]
        rfl
      rcases hstores o cell rfl hcell hsel with hstale | ⟨j, hji, hj⟩
      · left
        intro text' htext'
        obtain rfl := Option.some.inj (hnew.symm.trans htext')
        rw [htables]
        have hseen := (hasks cell.1 cell.2 text hstore).resolve_right (h.mistakes i g _ hγ hsel)
        exact h.seen i g _ _ hγ hsel hseen hstale
      · exact Or.inr (hstays j hj fun hpaid => hji hpaid.1)
    · left
      intro text htext
      rw [hnone] at htext
      cases htext
    · exact hkept hsettles hcache
  · have hcache : t.cache = s.1.cache := by
      by_cases hdb : o.OffDb
      · exact (handle_elsewhere hs hdb fun o' ho => hcacheOp ⟨o', ho⟩).2
      · cases o with
        | db q => exact (handle_silent hs id).cache
        | _ => exact absurd trivial hdb
    refine hkept ?_ (by rw [hcache])
    cases o with
    | cache o => exact absurd ⟨o, rfl⟩ hcacheOp
    | _ => rfl

/-- Another call's log is replaced. -/
theorem Known.others {s' : World ι × List (Effect ι)} {g' : Option TextLog} (h : Known C sel s γ)
    (hledgers : LedgerInv s'.1 (Function.update (ledgersOf γ) i (g'.map TextLog.ledger)))
    (hlog : s'.2 = s.2) (htables : s'.1.db.store.committed = s.1.db.store.committed)
    (hcache : s'.1.cache = s.1.cache)
    (hnew : ∀ g, g' = some g → ∀ key, sel key → ¬ g.mistakes key ∧ g.seen key = none) :
    Known C sel s' (Function.update γ i g') := by
  refine ⟨?_, fun j g key hj hsel => ?_, fun j g key text hj hsel htext hstale => ?_,
    fun cell hsel => ?_⟩
  · rw [ledgersOf_update]
    exact hledgers
  · rcases Pool.ghost_of_update hj with ⟨-, hg⟩ | ⟨-, hj⟩
    · exact (hnew g hg key hsel).1
    · exact h.mistakes j g key hj hsel
  · rcases Pool.ghost_of_update hj with ⟨-, hg⟩ | ⟨-, hj⟩
    · rw [(hnew g hg key hsel).2] at htext
      cases htext
    · rw [hlog] at hstale
      rw [htables]
      exact h.seen j g key text hj hsel htext hstale
  · rw [hlog]
    exact (h.entries cell hsel).imp_left fun hright =>
      hright.congr (by rw [htables]) (Or.inl (by rw [hcache]))

/-- `MGET` has one value for a key. -/
theorem fits_of_handle {s t : World ι} {o : SvcOp} {r : o.Ans} (hfits : g.ledger.Fits o r)
    (hs : handle cfg s i o x = some (t, r)) : g.Fits o r := by
  cases o with
  | cache o =>
    cases o with
    | redisMget keys =>
      obtain ⟨y, cache', -, hcache, -⟩ := handle_cache hs
      intro texts htexts
      cases y with
      | ok =>
        cases hcache
        exact ⟨s.cache.redis, (Option.some.inj htexts).symm⟩
      | fail => cases hcache; cases htexts
      | removed keys => cases hcache
    | _ => exact hfits
  | _ => exact hfits

/-- After an operation of call `i`. -/
theorem Known.handle (h : Known C sel s γ) (hγ : γ i = some g) {o : SvcOp} {r : o.Ans}
    (hasks : g.asks o) (hs : handle cfg s.1 i o x = some (t, r)) (hup : x ≠ .cache .fail)
    (hstores : ∀ o' cell, o = .cache o' → storedCell o' = some cell → sel cell.2 →
      (order C s.2).stale i cell.2 = false ∨ ∃ j, j ≠ i ∧ (order C s.2).debtor cell = some j)
    (hledgers : LedgerInv t (Function.update (ledgersOf γ) i (some (g.ledger.next C o r)))) :
    Known C sel (t, s.2 ++ [⟨i, o, r, s.1, t⟩]) (Function.update γ i (some (g.next C o r))) := by
  refine ⟨?_, fun j g' key hj hsel => ?_, fun j g' key text hj hsel htext hstale => ?_,
    fun cell hsel => ?_⟩
  · rw [ledgersOf_update]
    exact hledgers
  · rcases Pool.ghost_of_update hj with ⟨rfl, hg'⟩ | ⟨-, hj⟩
    · rw [← Option.some.inj hg']
      exact h.mistakes j g key hγ hsel
    · exact h.mistakes j g' key hj hsel
  · rw [order_snoc] at hstale
    rcases Pool.ghost_of_update hj with ⟨rfl, hg'⟩ | ⟨hji, hj⟩
    · rw [← Option.some.inj hg'] at htext
      cases o with
      | db q => exact h.statement hγ hasks hs hsel htext hstale
      | cache o => exact h.cached hγ hs hsel htext hstale
      | _ => exact h.untold hγ hs trivial hsel rfl htext hstale
    · obtain ⟨hstale, hsame⟩ := Order.stale_of_after (fun hp => hji hp.1.symm) hstale
      exact (Effect.alters_eq_false.mp hsame).trans (h.seen j g' key text hj hsel htext hstale)
  · rw [order_snoc]
    exact h.entry hγ hasks hs hup hstores hsel

end Knows

variable (cfg C sel) in
theorem service_knows :
    Pool.Sound (service (ι := ι) cfg C).recorded (texts C) Request.Over TextLog.fresh
      (Known C sel) (fun c a => RedisUp a ∧ InTime C sel c a) where
  init s hs := by
    refine ⟨(service_ledger cfg C).init s.1 hs.1, fun i g key hi => (by cases hi),
      fun i g key text hi => (by cases hi), fun cell _ => Or.inl fun text htext => ?_⟩
    rw [hs.1.2.1, Cache.CacheState.lookup_empty] at htext
    cases htext
  prog := Request.texts
  start c i k s γ hc h hγ hs := by
    cases hs
    refine h.others (h.ledgers.start ?_) rfl rfl rfl fun g hg key hsel => ?_
    · unfold ledgersOf
      rw [Function.comp_apply, hγ]
      rfl
    · cases hg
      exact ⟨hc.2.pages i k key rfl hsel, rfl⟩
  handle c i x k o f s r γ g hc h hF hi hγ hasks hs := by
    obtain ⟨t, ht, rfl⟩ := Pool.recorded_handle hs
    have hledger : g.ledger.Fits o r ∧
        LedgerInv t (Function.update (ledgersOf γ) i (some (g.ledger.next C o r))) := by
      by_cases ho : o.OffDb
      · exact h.ledgers.offDb (ledgersOf_some hγ) ho ht
      · cases o with
        | db q =>
          obtain ⟨hfits, hinv, -⟩ := h.ledgers.statement (C := C) (ledgersOf_some hγ) hasks ht
          exact ⟨hfits, hinv⟩
        | _ => exact absurd trivial ho
    refine ⟨_, ⟨rfl, fits_of_handle hledger.1 ht⟩, ?_⟩
    refine h.handle hγ hasks ht (fun hx => hc.1 i (by rw [hx])) ?_ hledger.2
    rintro o' cell rfl hcell hsel
    exact hc.2.stores i k o' f x cell rfl hi hcell hsel
  ret s i k γ g a h hγ ha :=
    h.others (h.ledgers.ret (ledgersOf_some hγ) ha) rfl rfl rfl fun g' hg' => by cases hg'
  drop c i k p s γ g hc h hF hi hγ hs := by
    cases hs
    exact h.others h.ledgers.drop rfl rfl rfl fun g' hg' => by cases hg'
  env c x s γ hc h hs := by
    obtain ⟨t, ht, rfl⟩ := Option.map_eq_some_iff.mp hs
    cases x with
    | evict layer key =>
      cases ht
      refine ⟨h.ledgers.env rfl, h.mistakes, h.seen, fun cell hsel => ?_⟩
      refine (h.entries cell hsel).imp_left fun hright => hright.congr rfl ?_
      by_cases hcell : cell.1 = layer ∧ cell.2 = key
      · obtain ⟨rfl, rfl⟩ := hcell
        exact Or.inr (Cache.CacheState.lookup_put_self _ _ _ _)
      · exact Or.inl (Cache.CacheState.lookup_put_ne _ _ (by tauto))
    | _ => cases ht

/-- Along a run whose steps are in time, the selected entries are right whenever no call is in
    progress. -/
theorem entriesRight_of_meets {init : RecordedConfig ι} {acts : List (Act ι Request SvcChoice)}
    (hinit : (service cfg C).recorded.machine.init init)
    (hup : ∀ i, .step i (.cache .fail) ∉ acts)
    (hmeets : (service cfg C).recorded.machine.Meets (InTime C sel) init acts) :
    (service cfg C).recorded.machine.Along
      (fun c => (∀ i, ¬ (c.calls i).Active) → ∀ cell, sel cell.2 → EntryRight C c.shared.1 cell)
      init acts := by
  have hlabels : (service cfg C).recorded.machine.Meets (fun _ => RedisUp) init acts := by
    refine Machine.meets_of_labels (fun a ha i heq => ?_) init
    exact hup i (heq ▸ ha)
  let I := fun c : RecordedConfig ι => Pool.Inv (ledger C) Request.Ends (Owed C sel) c ∧
    Pool.Inv (texts C) Request.Over (Known C sel) c
  refine (Machine.along_of_meets (I := I) (fun c a c' hc ha hstep => ?_) ?_
    (hlabels.and hmeets)).mono fun c hc hquiet cell hsel => ?_
  · exact ⟨(service_owes cfg C sel).toKeeps.inv_step c a c' hc.1 ha.2 hstep,
      (service_knows cfg C sel).toKeeps.inv_step c a c' hc.2 ha hstep⟩
  · exact ⟨(service_owes cfg C sel).inv_init hinit, (service_knows cfg C sel).inv_init hinit⟩
  · obtain ⟨⟨γ, howed, hF⟩, γ', hknown, -⟩ := hc
    refine (hknown.entries cell hsel).resolve_right ?_
    -- nobody is left to settle it
    rintro ⟨j, hj⟩
    obtain ⟨g, -, -, hγ, -⟩ := howed.owed cell j hsel hj
    rw [(hF j).none_of_not_active (hquiet j)] at hγ
    cases hγ

end SocialApi.Services
