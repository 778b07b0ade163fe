import SocialApi.Services.Ledger
import SocialApi.Services.Undecodable

/-!
# The texts that the tables give

A count, a status and a page are cached as texts, which are those of one state of the tables.

* `Changed.tableText_eq`: a change of the tables changes the texts of few keys.
* `Change.settled_of_keys`: the call that has made it owes a store or a deletion under each of
  them, in either layer.
* `handle_entry`: what an operation of the cache does to an entry.
-/

namespace SocialApi.Services

open SocialApi.Concurrent SocialApi.Postgres SocialApi.Repositories

/-! ## What the tables give -/

/-- The filter of the pages under a key. -/
def pageFilter (filterKey : String) : Option String :=
  if filterKey = "_" then none else some filterKey

/-- The text that the tables give for a key. -/
def tableText (C : Codec) (t : Tables) : CacheKey → Option String
  | .lc contentType contentId => some (t.totalCount (contentType, contentId)).toString
  | .ls userId contentType contentId =>
    some (statusText C ((t.find (userId, (contentType, contentId))).map LikesRow.createdAt))
  | .ul userId filterKey => C.pageToJson (firstRows t userId (pageFilter filterKey))
  | _ => none

/-- The pages under the key of a filter other than `_` are those of the filter. -/
theorem pageFilter_of_ne {contentTypeFilter : Option String} (h : contentTypeFilter ≠ some "_") :
    pageFilter (contentTypeFilter.getD "_") = contentTypeFilter := by
  unfold pageFilter
  cases contentTypeFilter with
  | none => rfl
  | some contentType =>
    refine if_neg fun he => h ?_
    rw [show contentType = "_" from he]

section Changes

variable {C : Codec} {t t' : Tables} {ch : Change}

/-- The row of a key that has not changed. -/
theorem Changed.find_of_ne (h : Changed t ch t') {key : LikeKey} (hkey : key ≠ ch.key) :
    t'.find key = t.find key := by
  unfold Tables.find
  rcases h.likes with ⟨row, hrow, -, -, hlikes⟩ | ⟨row, -, -, hlikes⟩
  · have hne : ¬ row.key = key := fun he => hkey (he.symm.trans hrow)
    rw [hlikes, List.find?_append, List.find?_singleton]
    simp [hne]
  · rw [hlikes, List.find?_filter]
    refine congrArg (fun p => t.likes.find? p) (funext fun r => ?_)
    by_cases hr : r.key = key
    · simp [hr, hkey]
    · simp [hr]

/-- The row of the key that has changed. -/
theorem Changed.find_self (h : Changed t ch t') :
    (t'.find ch.key).map LikesRow.createdAt = ch.likedAt := by
  unfold Tables.find
  rcases h.likes with ⟨row, hrow, hlikedAt, hnone, hlikes⟩ | ⟨row, hlikedAt, -, hlikes⟩
  · have hold : t.likes.find? (fun r => r.key = ch.key) = none := by
      rw [← List.head?_filter, hnone]
      rfl
    rw [hlikes, List.find?_append, hold, List.find?_singleton, hlikedAt]
    simp [hrow]
  · rw [hlikes, List.find?_filter, hlikedAt]
    simp

/-- The pages that the row of the change is not on. -/
theorem Changed.firstRows_of_not_matches (h : Changed t ch t') {userId : Uuid}
    {contentTypeFilter : Option String}
    (hout : ch.key.1 = userId → ∃ contentType ∈ contentTypeFilter, contentType ≠ ch.key.2.1) :
    firstRows t' userId contentTypeFilter = firstRows t userId contentTypeFilter := by
  have hnot : ∀ r : LikesRow, r.key = ch.key → ¬ Matches userId contentTypeFilter none r := by
    rintro r hr ⟨huser, htype, -⟩
    have huser' : ch.key.1 = userId := by
      rw [← hr]
      exact huser
    obtain ⟨contentType, hmem, hne⟩ := hout huser'
    refine hne ?_
    rw [← htype contentType hmem, ← hr]
    rfl
  have hrows : t'.likes.filter (Matches userId contentTypeFilter none) =
      t.likes.filter (Matches userId contentTypeFilter none) := by
    rcases h.likes with ⟨row, hrow, -, -, hlikes⟩ | ⟨row, -, -, hlikes⟩
    · rw [hlikes, List.filter_append, List.filter_cons_of_neg (by simpa using hnot row hrow),
        List.filter_nil, List.append_nil]
    · rw [hlikes, List.filter_filter]
      refine List.filter_congr fun r _ => ?_
      by_cases hr : r.key = ch.key
      · simp [hnot r hr]
      · simp [hr]
  unfold firstRows Tables.userLikes
  rw [hrows]

/-- The keys whose texts the change can change. -/
def Change.Keys (ch : Change) (key : CacheKey) : Prop :=
  key = countCacheKey ch.key.2 ∨ key = statusCacheKey ch.key.1 ch.key.2 ∨
    ∃ filterKey, key = .ul ch.key.1 filterKey ∧ (filterKey = "_" ∨ filterKey = ch.key.2.1)

/-- The other texts stay. -/
theorem Changed.tableText_eq (h : Changed t ch t') {key : CacheKey} (hkey : ¬ ch.Keys key) :
    tableText C t' key = tableText C t key := by
  cases key with
  | lc contentType contentId =>
    have hitem : (contentType, contentId) ≠ ch.key.2 := by
      intro he
      refine hkey (Or.inl ?_)
      rw [← he]
      rfl
    show some (t'.totalCount (contentType, contentId)).toString = _
    unfold Tables.totalCount
    rw [h.counts, Function.update_of_ne hitem]
    rfl
  | ls userId contentType contentId =>
    have hne : (userId, (contentType, contentId)) ≠ ch.key := by
      intro he
      refine hkey (Or.inr (Or.inl ?_))
      rw [← he]
      rfl
    show some (statusText C ((t'.find (userId, (contentType, contentId))).map _)) = _
    rw [h.find_of_ne hne]
    rfl
  | ul userId filterKey =>
    refine congrArg C.pageToJson (h.firstRows_of_not_matches fun huser => ?_)
    have hfilter : ¬ (filterKey = "_" ∨ filterKey = ch.key.2.1) :=
      fun hf => hkey (Or.inr (Or.inr ⟨filterKey, by rw [huser], hf⟩))
    refine ⟨filterKey, ?_, fun he => hfilter (Or.inr he)⟩
    unfold pageFilter
    rw [if_neg fun he => hfilter (Or.inl he)]
    rfl
  | tok hash => rfl
  | lbf window contentType limit => rfl

end Changes

/-! ## Entries -/

/-- What a layer holds under a key, if anything, is what the tables give. -/
def EntryRight {ι : Type} (C : Codec) (s : World ι) (cell : Cache.Layer × CacheKey) : Prop :=
  ∀ text, s.cache.lookup cell.1 cell.2 = some text →
    tableText C s.db.store.committed cell.2 = some text

/-- The deletion of an entry. -/
def deletion : Cache.Layer × CacheKey → Cache.Op
  | (.l1, key) => .l1Remove key
  | (.redis, key) => .redisDel key

/-- The entry that an operation stores. -/
def storedCell (o : Cache.Op) : Option (Cache.Layer × CacheKey) :=
  o.store.map fun e => (e.1, e.2.1)

/-- The operation stores or deletes the entry. -/
def settles (cell : Cache.Layer × CacheKey) : SvcOp → Bool
  | .cache o => o = deletion cell ∨ storedCell o = some cell
  | _ => false

/-- What a call owes after its change includes each entry that the change makes wrong. -/
theorem Change.settled_of_keys (C : Codec) {ch : Change} {key : CacheKey} (h : ch.Keys key)
    (layer : Cache.Layer) :
    ∃ due, ch.Affects due ∧ ∀ o, ch.Pays C due o → settles (layer, key) o = true := by
  rcases h with rfl | rfl | ⟨filterKey, rfl, hfilter⟩
  · refine ⟨.count layer, trivial, fun o hpays => ?_⟩
    cases o with
    | cache o => exact decide_eq_true (Or.inr (congrArg (Option.map _) hpays))
    | _ => exact hpays.elim
  · refine ⟨.status layer, trivial, fun o hpays => ?_⟩
    cases o with
    | cache o => exact decide_eq_true (Or.inr (congrArg (Option.map _) hpays))
    | _ => exact hpays.elim
  · refine ⟨.page layer filterKey, hfilter, fun o hpays => ?_⟩
    cases o with
    | cache o =>
      cases layer with
      | l1 => exact decide_eq_true (Or.inl hpays)
      | redis => exact decide_eq_true (Or.inl hpays)
    | _ => cases layer <;> exact hpays.elim

section Entries

variable {ι : Type} {C : Codec} {s s' : World ι} {cell : Cache.Layer × CacheKey}

/-- An entry that is as it was, or gone, is right if it was. -/
theorem EntryRight.congr (hright : EntryRight C s cell)
    (h : tableText C s'.db.store.committed cell.2 = tableText C s.db.store.committed cell.2)
    (hcache : s'.cache.lookup cell.1 cell.2 = s.cache.lookup cell.1 cell.2 ∨
      s'.cache.lookup cell.1 cell.2 = none) : EntryRight C s' cell := by
  intro text htext
  rw [h]
  rcases hcache with hsame | hnone
  · exact hright text (hsame.symm.trans htext)
  · rw [hnone] at htext
    cases htext

variable [DecidableEq ι] {cfg : Config} {i : ι}

/-- An entry after an operation of the cache that does not fail is the text stored there, or
    gone, or as it was, and then the operation has not settled it. -/
theorem handle_entry {o : Cache.Op} {x : SvcChoice} {r : o.Ans}
    (hs : handle cfg s i (.cache o) x = some (s', r)) (hup : x ≠ .cache .fail)
    (cell : Cache.Layer × CacheKey) :
    (∃ text, o.store = some (cell.1, cell.2, text) ∧
        s'.cache.lookup cell.1 cell.2 = some text) ∨
      s'.cache.lookup cell.1 cell.2 = none ∨
      settles cell (.cache o) = false ∧
        s'.cache.lookup cell.1 cell.2 = s.cache.lookup cell.1 cell.2 := by
  obtain ⟨y, cache', rfl, hcache, rfl⟩ := handle_cache hs
  obtain ⟨layer, key⟩ := cell
  by_cases hdelete : o = deletion (layer, key)
  · refine Or.inr (Or.inl ?_)
    subst hdelete
    show cache'.lookup layer key = none
    cases layer with
    | l1 =>
      cases y with
      | ok => cases hcache; exact Cache.CacheState.lookup_put_self _ _ _ _
      | _ => cases hcache
    | redis =>
      cases y with
      | ok => cases hcache; exact Cache.CacheState.lookup_put_self _ _ _ _
      | fail => exact absurd rfl hup
      | removed keys => cases hcache
  · by_cases hstore : storedCell o = some (layer, key)
    · obtain ⟨⟨layer', key', text⟩, hstored, heq⟩ := Option.map_eq_some_iff.mp hstore
      obtain ⟨rfl, rfl⟩ := Prod.mk.inj heq
      exact Or.inl ⟨text, hstored, Cache.handle_store hcache hstored fun hy => hup (by rw [hy])⟩
    · rcases Cache.handle_lookup hcache layer key with hold | hnone | ⟨text, hstored, hnew⟩
      · exact Or.inr (Or.inr ⟨decide_eq_false (not_or.mpr ⟨hdelete, hstore⟩), hold⟩)
      · exact Or.inr (Or.inl hnone)
      · exact Or.inl ⟨text, hstored, hnew⟩

/-- An operation on neither the database nor the cache. -/
theorem handle_elsewhere {o : SvcOp} {x : SvcChoice} {r : o.Ans}
    (hs : handle cfg s i o x = some (s', r)) (hdb : o.OffDb) (hcache : ∀ o', o ≠ .cache o') :
    s'.db = s.db ∧ s'.cache = s.cache := by
  refine ⟨handle_offDb hs hdb, ?_⟩
  cases o with
  | db q => exact hdb.elim
  | cache o => exact absurd rfl (hcache o)
  | flight o => obtain ⟨y, f', -, -, rfl⟩ := handle_flight hs; rfl
  | publish event item =>
    cases x with
    | published delivered => cases hs; cases delivered <;> rfl
    | _ => cases hs
  | _ => cases x <;> cases hs; rfl

end Entries

end SocialApi.Services
