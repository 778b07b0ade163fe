import SocialApi.Concurrent.OneByOne
import SocialApi.Services.TableTexts

/-!
# A call on its own over a right cache

A call that has the service for itself, while Redis commands succeed; statements may fail and may
return their rows in any order, the content validator, the clocks and the breaker answer what
they like (`onItsOwn`).

* `CacheRight`: what a layer holds under a key tells a reader what the tables give, except under
  the keys that are left out. Reading, storing what the tables give, deleting and evicting keep it.
* `own_cache`, `own_db`: what a method of the cache and a statement on the pool do to such a call.
-/

namespace SocialApi.Services

open SocialApi.Concurrent SocialApi.Postgres SocialApi.Repositories

/-! ## Right entries -/

/-- The text tells a reader of the key what the tables give. A count counts only if it can be
    read. -/
def TextRight (C : Codec) (t : Tables) : CacheKey → String → Prop
  | .lc contentType contentId, text =>
    ∀ count, I64.parse text = some count → count = t.totalCount (contentType, contentId)
  | .ls userId contentType contentId, text =>
    tableText C t (.ls userId contentType contentId) = some text
  | .ul userId filterKey, text => tableText C t (.ul userId filterKey) = some text
  | _, _ => True

/-- Every entry is right, but for the keys of `K`. -/
def CacheRight (C : Codec) (t : Tables) (K : CacheKey → Prop) (c : Cache.CacheState) : Prop :=
  ∀ layer key text, ¬ K key → c.lookup layer key = some text → TextRight C t key text

section Entries

variable {C : Codec} {t t' : Tables} {K K' : CacheKey → Prop} {c c' : Cache.CacheState}

/-- The text that the tables give is right. -/
theorem textRight_of_tableText {key : CacheKey} {text : String}
    (h : tableText C t key = some text) : TextRight C t key text := by
  cases key with
  | lc contentType contentId =>
    intro count hcount
    have h := Option.some.inj h
    rw [← h, I64.parse_toString] at hcount
    exact (Option.some.inj hcount).symm
  | ls userId contentType contentId => exact h
  | ul userId filterKey => exact h
  | tok hash => trivial
  | lbf window contentType limit => trivial

/-- A text stays right while the tables give the same for its key. -/
theorem textRight_congr {key : CacheKey} (h : tableText C t' key = tableText C t key)
    {text : String} (hright : TextRight C t key text) : TextRight C t' key text := by
  cases key with
  | lc contentType contentId =>
    intro count hcount
    have htotal := Option.some.inj h
    have htotal : t'.totalCount (contentType, contentId) = t.totalCount (contentType, contentId) := by
      have hparse := congrArg I64.parse htotal
      rw [I64.parse_toString, I64.parse_toString] at hparse
      exact Option.some.inj hparse
    rw [htotal]
    exact hright count hcount
  | ls userId contentType contentId => exact h.trans hright
  | ul userId filterKey => exact h.trans hright
  | tok hash => trivial
  | lbf window contentType limit => trivial

theorem cacheRight_empty : CacheRight C t K .empty := by
  intro layer key text _ htext
  rw [Cache.CacheState.lookup_empty] at htext
  cases htext

theorem CacheRight.mono (h : CacheRight C t K c) (hK : ∀ key, K key → K' key) :
    CacheRight C t K' c :=
  fun layer key text hkey => h layer key text fun hK' => hkey (hK key hK')

/-- Entries that are as they were, or gone. -/
theorem CacheRight.of_lookup (h : CacheRight C t K c)
    (hlookup : ∀ layer key, c'.lookup layer key = c.lookup layer key ∨ c'.lookup layer key = none) :
    CacheRight C t K c' := by
  intro layer key text hkey htext
  rcases hlookup layer key with hsame | hnone
  · exact h layer key text hkey (hsame.symm.trans htext)
  · rw [hnone] at htext
    cases htext

/-- Other tables that give the same for the keys outside `K'`. -/
theorem CacheRight.tables (h : CacheRight C t K c) (hK : ∀ key, K key → K' key)
    (htables : ∀ key, ¬ K' key → tableText C t' key = tableText C t key) : CacheRight C t' K' c :=
  fun layer key text hkey htext =>
    textRight_congr (htables key hkey) (h.mono hK layer key text hkey htext)

theorem CacheRight.evict (h : CacheRight C t K c) (layer : Cache.Layer) (key : CacheKey) :
    CacheRight C t K (Cache.evict c layer key) := by
  refine h.of_lookup fun layer' key' => ?_
  by_cases hcell : layer' = layer ∧ key' = key
  · obtain ⟨rfl, rfl⟩ := hcell
    exact Or.inr (Cache.CacheState.lookup_put_self _ _ _ _)
  · exact Or.inl (Cache.CacheState.lookup_put_ne _ _ (by tauto))

/-- What a reader finds is right. -/
theorem CacheRight.found (h : CacheRight C t K c) {key : CacheKey} (hkey : ¬ K key) {text : String}
    (hfound : c.found true key = some text) : TextRight C t key text := by
  unfold Cache.CacheState.found at hfound
  cases hl1 : c.l1 key with
  | some v =>
    rw [hl1] at hfound
    exact h .l1 key text hkey (hl1.trans hfound)
  | none =>
    rw [hl1, Option.none_or, if_pos rfl] at hfound
    exact h .redis key text hkey hfound

theorem CacheRight.loaded (h : CacheRight C t K c) (keys : List CacheKey) :
    CacheRight C t K (c.loaded true keys) := by
  intro layer key text hkey htext
  cases layer with
  | redis => exact h .redis key text hkey htext
  | l1 =>
    have htext : (if key ∈ keys then c.found true key else c.l1 key) = some text := htext
    split_ifs at htext with hmem
    · exact h.found hkey htext
    · exact h .l1 key text hkey htext

/-- The keys whose right texts are written are right from then on. -/
theorem CacheRight.stored (h : CacheRight C t K c) (texts : CacheKey → String)
    (keys : List CacheKey) (hkeys : ∀ key ∈ keys, TextRight C t key (texts key)) :
    CacheRight C t (fun key => K key ∧ key ∉ keys) (c.stored true texts keys) := by
  intro layer key text hkey htext
  by_cases hmem : key ∈ keys
  · have hstored : (c.stored true texts keys).lookup layer key = some (texts key) := by
      cases layer with
      | l1 => exact if_pos hmem
      | redis => exact if_pos ⟨rfl, hmem⟩
    obtain rfl := Option.some.inj (hstored.symm.trans htext)
    exact hkeys key hmem
  · have hsame : (c.stored true texts keys).lookup layer key = c.lookup layer key := by
      cases layer with
      | l1 => exact if_neg hmem
      | redis => exact if_neg fun he => hmem he.2
    exact h layer key text (fun hK => hkey ⟨hK, hmem⟩) (hsame.symm.trans htext)

/-- The keys that are deleted are right from then on. -/
theorem CacheRight.without (h : CacheRight C t K c) (keys : List CacheKey) :
    CacheRight C t (fun key => K key ∧ key ∉ keys) (c.without keys) := by
  intro layer key text hkey htext
  by_cases hmem : key ∈ keys
  · have hgone : (c.without keys).lookup layer key = none := by
      cases layer <;> exact if_pos hmem
    rw [hgone] at htext
    cases htext
  · have hsame : (c.without keys).lookup layer key = c.lookup layer key := by
      cases layer <;> exact if_neg hmem
    exact h layer key text (fun hK => hkey ⟨hK, hmem⟩) (hsame.symm.trans htext)

end Entries

/-! ## A call on its own -/

variable {ι : Type} [DecidableEq ι]

/-- The outcome is not that of a Redis command that fails. -/
def RedisWorks : SvcChoice → Prop
  | .cache .fail => False
  | _ => True

instance : DecidablePred RedisWorks
  | .cache .fail => isFalse id
  | .cache .ok => isTrue trivial
  | .cache (.removed _) => isTrue trivial
  | .db _ => isTrue trivial
  | .flight _ => isTrue trivial
  | .clock _ _ => isTrue trivial
  | .validated _ => isTrue trivial
  | .published _ => isTrue trivial
  | .wall _ => isTrue trivial
  | .order _ => isTrue trivial
  | .evict _ _ => isTrue trivial

/-- Call `i` has the service for itself, and Redis commands succeed. -/
def onItsOwn (cfg : Config) (i : ι) : Protocol SvcOp SvcOp.Ans (World ι) :=
  solo (fun s => handle cfg s i) RedisWorks

section Own

variable {cfg : Config} {C : Codec} {i : ι} {s : World ι} {α β : Type}

/-- A method of the cache whose operations have one outcome. -/
theorem own_cache {p : Cache.CacheM α} (hp : p.All Cache.Op.Fixed) {c : Cache.CacheState} {a : α}
    (hexec : p.exec (Cache.steady true) s.cache = some (c, a)) {Q : World ι → α → Prop}
    (hQ : Q { s with cache := c } a) : (onItsOwn cfg i).Obeys Q s (cache p) := by
  refine Protocol.obeys_of_exec (f := quietly cfg ⟨true, .epoch, [], []⟩ i)
    (S := fun o => ∃ o' : Cache.Op, o = .cache o' ∧ o'.Fixed) ?_
    (.lift (hp.mono fun o ho => ⟨o, rfl, ho⟩)) ?_ hQ
  · rintro s _ ⟨o, rfl, ho⟩
    refine ⟨trivial, ?_⟩
    rintro r s' ⟨x, hx, hs⟩
    obtain ⟨y, c', rfl, hc, rfl⟩ := handle_cache hs
    have hy : y ≠ .fail := by
      rintro rfl
      exact hx
    have hsteady := Cache.steady_of_handle ho hy hc
    show (Cache.handle s.cache o (o.usual true)).map _ = _
    rw [show Cache.handle s.cache o (o.usual true) = _ from hsteady]
    rfl
  · show (cache p).exec _ s = _
    rw [exec_cache, hexec]
    rfl

/-- A statement on the pool leaves the database as it is. -/
theorem db_of_readsOnly {d d' : DbState ι} {q : DbOp} (hq : ReadsOnly q)
    {x : DbChoice} {r : q.Ans} (h : Postgres.handle d i q x = some (d', r)) : d = d' := by
  cases x with
  | fail message =>
    have hfail : failStatement d i q = d := by
      cases q <;> first | exact hq.elim | rfl
    exact hfail.symm.trans (Prod.mk.inj (Option.some.inj h)).1
  | run now order =>
    have hrun : ∀ rows, runStatement d i now order q = some rows → d = rows.1 := by
      intro rows hrows
      cases q <;> first | exact hq.elim | (cases hrows; rfl)
    exact hrun (d', r) h

/-- A statement on the pool changes nothing but the list of errors. -/
theorem own_db {q : DbOp} (hq : ReadsOnly q) {Q : World ι → Except AppError q.Rows → Prop}
    (hok : ∀ now order rows, runStatement s.db i now order q = some (s.db, .ok rows) →
      Q s (.ok rows))
    (herr : ∀ e, Q { s with dbErrors := i :: s.dbErrors } (.error e)) :
    (onItsOwn cfg i).Obeys Q s (db (Prog.perform q)) := by
  refine solo_op fun x s' r _ hs => ?_
  obtain ⟨y, db', rfl, hdb, rfl⟩ := handle_db hs
  obtain rfl := db_of_readsOnly hq hdb
  cases r with
  | error e => exact herr (mapDbError e)
  | ok rows =>
    cases y with
    | fail message => cases (Prod.mk.inj (Option.some.inj hdb)).2
    | run now order => exact hok now order rows hdb

/-- `?`. -/
theorem own_attempt {p : Svc (Except AppError α)} {f : α → Svc (Except AppError β)}
    {Q : World ι → Except AppError α → Prop} {R : World ι → Except AppError β → Prop}
    (hp : (onItsOwn cfg i).Obeys Q s p)
    (hok : ∀ s a, Q s (.ok a) → (onItsOwn cfg i).Obeys R s (f a))
    (herr : ∀ s e, Q s (.error e) → R s (.error e)) :
    (onItsOwn cfg i).Obeys R s (attempt p f) := by
  refine hp.bind fun s' result hQ => ?_
  cases result with
  | ok a => exact hok s' a hQ
  | error e => exact herr s' e hQ

end Own

end SocialApi.Services
