import SocialApi.Leaderboard.BoardPhases

/-!
# What the refresh task leaves in the caches

Along a run in which Redis works and nothing comes between the task and the readers of its boards
(`Undisturbed`), each text that the task has written is that of the rows its query returned, Redis
holds it, and L1 holds nothing else.

* `holding_keeps`: what one step keeps of this, from one lemma for each kind of operation.
* `stored_of_returned`: when the task has returned, it has stored the boards of all windows and
  content types.
-/

namespace SocialApi.Leaderboard

open SocialApi.Concurrent SocialApi.Postgres SocialApi.Ranking BoardPhase

variable {L : BoardLibs}

/-! ## What the record says -/

section Runs

variable {ι : Type}

/-- The operations performed so far. -/
abbrev Record (ι : Type) := List (Performed ι Boards BoardOp BoardOp.Ans)

/-- A configuration of the recorded pool. -/
abbrev BoardConfig (ι : Type) :=
  Configuration ι (Boards × Record ι) BoardCall BoardOp BoardOp.Ans BoardResult

/-- The text that call `r` writes to Redis under the key by this operation. -/
def textSet [DecidableEq ι] (r : ι) (key : CacheKey) (p : Performed ι Boards BoardOp BoardOp.Ans) :
    Option String :=
  if p.call = r then
    match p.op with
    | .cache (.redisSetEx key' text _) => if key' = key then some text else none
    | _ => none
  else none

/-- The text that call `r` has written last under the key. -/
def storedBy [DecidableEq ι] (record : Record ι) (r : ι) (key : CacheKey) : Option String :=
  (record.filterMap (textSet r key)).getLast?

/-- Call `r` has asked for the board of the content type and been told the rows. -/
def Asked (record : Record ι) (r : ι) (ct : String) (since : Option DateTime)
    (rows : List (Item × I64)) : Prop :=
  ∃ before after, ⟨r, .query (some ct) since leaderboardLimit, .ok rows, before, after⟩ ∈ record

/-- The text is that of the rows which the query of call `r` for the key's window and content
    type has returned. -/
def Source (L : BoardLibs) (record : Record ι) (r : ι) (key : CacheKey) (text : String) : Prop :=
  ∃ window ct now rows, key = .lbf window ct leaderboardLimit.toNat ∧
    L.itemsToJson (rows.map toTopLikedItem) = some text ∧ rows.length ≤ 50 ∧
    Asked record r ct (startOf window now) rows

/-- The operation asks the database. -/
def IsQuery : BoardOp → Prop
  | .query _ _ _ => True
  | _ => False

instance : DecidablePred IsQuery
  | .cache _ => isFalse id
  | .l1InvalidateFiltered => isFalse id
  | .l1ZsetGet _ _ _ => isFalse id
  | .l1ZsetInsert _ _ _ _ => isFalse id
  | .l1ZsetInvalidate _ => isFalse id
  | .zrevrange _ _ _ => isFalse id
  | .replace _ _ => isFalse id
  | .utcNow => isFalse id
  | .query _ _ _ => isTrue trivial

/-- Redis holds the text, and L1 holds nothing else. -/
def Fresh (s : Boards) (key : CacheKey) (text : String) : Prop :=
  s.cache.redis key = some text ∧ ∀ v, s.cache.l1 key = some v → v = text

theorem storedBy_append [DecidableEq ι] (record : Record ι)
    (p : Performed ι Boards BoardOp BoardOp.Ans) (r : ι)
    (key : CacheKey) :
    storedBy (record ++ [p]) r key = (textSet r key p).or (storedBy record r key) := by
  unfold storedBy
  rw [List.filterMap_append, List.getLast?_append]
  cases h : textSet r key p with
  | none => rw [List.filterMap_cons, h]; rfl
  | some text => rw [List.filterMap_cons, h]; rfl

theorem storedBy_other [DecidableEq ι] {record : Record ι}
    {p : Performed ι Boards BoardOp BoardOp.Ans} {r : ι}
    {key : CacheKey} (h : textSet r key p = none) :
    storedBy (record ++ [p]) r key = storedBy record r key := by
  rw [storedBy_append, h, Option.none_or]

theorem Asked.append {record : Record ι} {r : ι} {ct : String} {since : Option DateTime}
    {rows : List (Item × I64)} (h : Asked record r ct since rows)
    (p : Performed ι Boards BoardOp BoardOp.Ans) : Asked (record ++ [p]) r ct since rows := by
  obtain ⟨before, after, hmem⟩ := h
  exact ⟨before, after, List.mem_append_left _ hmem⟩

theorem Source.append {record : Record ι} {r : ι} {key : CacheKey} {text : String}
    (h : Source L record r key text) (p : Performed ι Boards BoardOp BoardOp.Ans) :
    Source L (record ++ [p]) r key text := by
  obtain ⟨window, ct, now, rows, hkey, hjson, hlength, hasked⟩ := h
  exact ⟨window, ct, now, rows, hkey, hjson, hlength, hasked.append p⟩

/-- A text that L1 holds after an operation it held before, unless the operation put it there;
    Redis changes by `SETEX` and `DEL` only. -/
theorem handle_cache {s s' : Boards} {o : BoardOp} {x : BoardChoice} {answer : o.Ans}
    (h : handle L s o x = some (s', answer)) (hinsert : ∀ key text, o ≠ .cache (.l1Insert key text))
    (hset : ∀ key text secs, o ≠ .cache (.redisSetEx key text secs))
    (hdel : ∀ key, o ≠ .cache (.redisDel key)) :
    s'.cache.redis = s.cache.redis ∧
      ∀ key v, s'.cache.l1 key = some v → s.cache.l1 key = some v := by
  cases o with
  | cache o =>
    cases x with
    | cache x =>
      obtain ⟨⟨s'', a⟩, hs, heq⟩ := Option.map_eq_some_iff.mp h
      cases heq
      cases o with
      | l1Insert key text => exact absurd rfl (hinsert key text)
      | redisSetEx key text secs => exact absurd rfl (hset key text secs)
      | redisDel key => exact absurd rfl (hdel key)
      | l1Remove key =>
        cases x with
        | ok =>
          cases hs
          refine ⟨rfl, fun key' v hv => ?_⟩
          have hv : Function.update s.cache.l1 key none key' = some v := hv
          by_cases hkey : key' = key
          · rw [hkey, Function.update_self] at hv
            cases hv
          · rwa [Function.update_of_ne hkey] at hv
        | _ => cases hs
      | l1InvalidatePrefix userId =>
        cases x with
        | removed keys =>
          cases hs
          refine ⟨rfl, fun key' v hv => ?_⟩
          have hv : (if Cache.OfUser userId key' ∧ key' ∈ keys then none else s.cache.l1 key') =
            some v := hv
          split_ifs at hv
          exact hv
        | _ => cases hs
      | _ => cases x <;> cases hs <;> exact ⟨rfl, fun _ _ hv => hv⟩
    | _ => cases h
  | l1InvalidateFiltered =>
    cases x with
    | removed keys =>
      cases h
      refine ⟨rfl, fun key' v hv => ?_⟩
      have hv : (if Filtered key' ∧ key' ∈ keys then none else s.cache.l1 key') = some v := hv
      split_ifs at hv
      exact hv
    | _ => cases h
  | _ => cases x <;> cases h <;> exact ⟨rfl, fun _ _ hv => hv⟩

/-- The rows of a query are not more than asked for. -/
theorem length_of_query {s s' : Boards} {contentType : Option String} {since : Option DateTime}
    {limit : ℤ} {x : BoardChoice} {rows : List (Item × I64)}
    (h : handle L s (.query contentType since limit) x = some (s', .ok rows)) :
    rows.length ≤ limit.toNat := by
  cases x with
  | rows plan => exact Tables.length_getLeaderboard (Prod.mk.inj (Option.some.inj h)).2
  | error message => cases (Prod.mk.inj (Option.some.inj h)).2
  | _ => cases h

/-! ## While the task runs -/

/-- The steps in which Redis works and nothing comes between the task `r` and the readers of
    its boards: `r` is not dropped, no query of `r` fails, no other call writes a string to
    Redis, no filtered board expires in Redis, and a text read from Redis is put into L1 only
    while `r` is not running and Redis still holds it. -/
def Undisturbed (L : BoardLibs) (r : ι) (c : BoardConfig ι) : Act ι BoardCall BoardChoice → Prop
  | .step j x =>
    match c.calls j with
    | .running _ (.op (.cache (.redisSetEx _ _ _)) _) => j = r ∧ x ≠ .cache .fail
    | .running _ (.op (.cache (.redisGet _)) _) => x ≠ .cache .fail
    | .running _ (.op (.cache (.l1Insert key text)) _) =>
      j = r ∨ ¬ (c.calls r).Active ∧ c.shared.1.cache.redis key = some text
    | .running _ (.op (.query contentType since limit) _) =>
      j = r → ∃ s rows, handle L c.shared.1 (.query contentType since limit) x = some (s, .ok rows)
    | _ => True
  | .drop j => j ≠ r
  | .env (.expire .redis key) => ¬ Filtered key
  | _ => True

/-- `Undisturbed`, computed. -/
def undisturbed (L : BoardLibs) (r : ℕ) (c : BoardConfig ℕ) : Act ℕ BoardCall BoardChoice → Bool
  | .step j x =>
    let works := match x with
      | .cache .fail => false
      | _ => true
    match c.calls j with
    | .running _ (.op (.cache (.redisSetEx _ _ _)) _) => decide (j = r) && works
    | .running _ (.op (.cache (.redisGet _)) _) => works
    | .running _ (.op (.cache (.l1Insert key text)) _) =>
      decide (j = r ∨ ¬ (c.calls r).Active ∧ c.shared.1.cache.redis key = some text)
    | .running _ (.op (.query contentType since limit) _) =>
      match handle L c.shared.1 (.query contentType since limit) x with
      | some (_, .ok _) => true
      | _ => decide (j ≠ r)
    | _ => true
  | .drop j => decide (j ≠ r)
  | .env (.expire .redis key) => decide (¬ Filtered key)
  | _ => true

theorem undisturbed_sound {L : BoardLibs} {r : ℕ} (c : BoardConfig ℕ)
    (a : Act ℕ BoardCall BoardChoice) (h : undisturbed L r c a = true) : Undisturbed L r c a := by
  have hworks : ∀ x : BoardChoice, (match x with
      | .cache .fail => false
      | _ => true) = true → x ≠ .cache .fail := by
    rintro x hx rfl
    cases hx
  cases a with
  | start i k => trivial
  | drop j => exact of_decide_eq_true (p := j ≠ r) h
  | env x =>
    cases x with
    | expire layer key =>
      cases layer with
      | l1 => trivial
      | redis => exact of_decide_eq_true (p := ¬ Filtered key) h
    | _ => trivial
  | step j x =>
    simp only [undisturbed] at h
    simp only [Undisturbed]
    split at h
    · obtain ⟨hjr, hx⟩ := Bool.and_eq_true_iff.mp h
      exact ⟨of_decide_eq_true hjr, hworks x hx⟩
    · exact hworks x h
    · exact of_decide_eq_true h
    · split at h
      · rename_i s rows hs
        exact fun _ => ⟨s, rows, hs⟩
      · exact fun hjr => absurd hjr (of_decide_eq_true h)
    · trivial

/-- The environment changes no filtered board in Redis and puts nothing into L1. -/
theorem environment_cache {r : ι} {c : BoardConfig ι} {x : BoardChoice} {s' : Boards}
    (hx : Undisturbed L r c (.env x)) (hs' : environment c.shared.1 x = some s') :
    (∀ key, Filtered key → s'.cache.redis key = c.shared.1.cache.redis key) ∧
      ∀ key v, s'.cache.l1 key = some v → c.shared.1.cache.l1 key = some v := by
  cases x with
  | expire layer key =>
    cases hs'
    cases layer with
    | l1 =>
      refine ⟨fun _ _ => rfl, fun key' v hv => ?_⟩
      have hv : Function.update c.shared.1.cache.l1 key none key' = some v := hv
      by_cases hkey : key' = key
      · rw [hkey, Function.update_self] at hv
        cases hv
      · rwa [Function.update_of_ne hkey] at hv
    | redis =>
      refine ⟨fun key' hkey' => ?_, fun _ _ hv => hv⟩
      have hne : key' ≠ key := by
        rintro rfl
        exact hx hkey'
      exact Function.update_of_ne hne _ _
  | expireRange window start stop => cases hs'; exact ⟨fun _ _ => rfl, fun _ _ hv => hv⟩
  | commit writes => cases hs'; exact ⟨fun _ _ => rfl, fun _ _ hv => hv⟩
  | _ => cases hs'

variable [DecidableEq ι]

/-- What holds of the task's own call in a phase. -/
def Own (L : BoardLibs) (r : ι) (s : Boards × Record ι) : BoardPhase → Prop
  | .refreshing last stored failed => failed = false ∧
    (∀ key ∈ stored, storedBy s.2 r key ≠ none) ∧
    ∀ ct since rows, last = some (ct, since, rows) → rows.length ≤ 50 ∧ Asked s.2 r ct since rows
  | .storing key json stored failed => failed = false ∧
    (∀ key ∈ stored, storedBy s.2 r key ≠ none) ∧
    (∀ v, s.1.cache.l1 key = some v → v = json) ∧ Source L s.2 r key json
  | _ => False

/-- What the task has written is what its queries returned, and the caches hold it, except for
    the key that it is just writing. -/
structure Holding (L : BoardLibs) (r : ι) (s : Boards × Record ι) (γ : ι → Option BoardPhase) :
    Prop where
  fresh : ∀ key text, storedBy s.2 r key = some text →
    (∀ text' stored failed, γ r ≠ some (.storing key text' stored failed)) → Fresh s.1 key text
  source : ∀ key text, storedBy s.2 r key = some text → Source L s.2 r key text
  own : ∀ g, γ r = some g → Own L r s g

/-- One more operation in the record, of which the task's texts are independent. -/
theorem Own.append {r : ι} {s : Boards × Record ι} {s' : Boards} {g : BoardPhase}
    (h : Own L r s g) {p : Performed ι Boards BoardOp BoardOp.Ans}
    (hp : ∀ key, textSet r key p = none)
    (hl1 : ∀ key v, s'.cache.l1 key = some v → s.1.cache.l1 key = some v ∨
      ∀ text stored failed, g ≠ .storing key text stored failed) :
    Own L r (s', s.2 ++ [p]) g := by
  have hstored : ∀ key, storedBy (s.2 ++ [p]) r key = storedBy s.2 r key := fun key =>
    storedBy_other (hp key)
  cases g with
  | refreshing last stored failed =>
    obtain ⟨hfailed, hkeys, hlast⟩ := h
    refine ⟨hfailed, fun key hkey => ?_, fun ct since rows hrows => ?_⟩
    · rw [hstored]
      exact hkeys key hkey
    · exact ⟨(hlast ct since rows hrows).1, (hlast ct since rows hrows).2.append p⟩
  | storing key json stored failed =>
    obtain ⟨hfailed, hkeys, htext, hsource⟩ := h
    refine ⟨hfailed, fun key hkey => ?_, fun v hv => ?_, hsource.append p⟩
    · rw [hstored]
      exact hkeys key hkey
    · rcases hl1 key v hv with hv | hne
      · exact htext v hv
      · exact absurd rfl (hne json stored failed)
  | _ => exact h.elim

/-- An operation that writes nothing to Redis, and nothing to L1 but what Redis holds while the
    task is not running. -/
theorem Holding.append {r : ι} {s : Boards × Record ι} {s' : Boards}
    {γ γ' : ι → Option BoardPhase} (h : Holding L r s γ)
    {p : Performed ι Boards BoardOp BoardOp.Ans} (hp : ∀ key, textSet r key p = none)
    (hredis : s'.cache.redis = s.1.cache.redis)
    (hl1 : ∀ key v, s'.cache.l1 key = some v → s.1.cache.l1 key = some v ∨
      γ r = none ∧ s.1.cache.redis key = some v)
    (hstoring : ∀ key text stored failed, γ r = some (.storing key text stored failed) →
      γ' r = some (.storing key text stored failed))
    (hown : ∀ g, γ' r = some g → Own L r (s', s.2 ++ [p]) g) : Holding L r (s', s.2 ++ [p]) γ' where
  fresh key text htext hne := by
    rw [storedBy_other (hp key)] at htext
    obtain ⟨hget, hl1'⟩ := h.fresh key text htext fun text' stored failed hγ =>
      hne text' stored failed (hstoring key text' stored failed hγ)
    refine ⟨by rw [hredis]; exact hget, fun v hv => ?_⟩
    rcases hl1 key v hv with hv | ⟨-, hv⟩
    · exact hl1' v hv
    · rw [hget] at hv
      exact (Option.some.inj hv).symm
  source key text htext := by
    rw [storedBy_other (hp key)] at htext
    exact (h.source key text htext).append p
  own := hown

theorem textSet_other {r : ι} {p : Performed ι Boards BoardOp BoardOp.Ans}
    (hp : p.call ≠ r ∨ ∀ key text secs, p.op ≠ .cache (.redisSetEx key text secs))
    (key : CacheKey) : textSet r key p = none := by
  unfold textSet
  split_ifs with hcall
  · have hop := hp.resolve_left fun hne => hne hcall
    obtain ⟨call, op, answer, before, after⟩ := p
    cases op with
    | cache o =>
      cases o with
      | redisSetEx key' text secs => exact absurd rfl (hop key' text secs)
      | _ => rfl
    | _ => rfl
  · rfl

/-- The task puts a text into L1 that it is about to write to Redis. -/
theorem Holding.l1Insert {r : ι} {s : Boards × Record ι} {s' : Boards}
    {γ : ι → Option BoardPhase} (h : Holding L r s γ) {g : BoardPhase} (hγ : γ r = some g)
    {key : CacheKey} {text : String} {x : BoardChoice} {answer : Unit}
    (hask : g.asks L (.cache (.l1Insert key text)))
    (hs : handle L s.1 (.cache (.l1Insert key text)) x = some (s', answer)) :
    Holding L r (s', s.2 ++ [⟨r, .cache (.l1Insert key text), answer, s.1, s'⟩])
      (Function.update γ r (some (g.next (.cache (.l1Insert key text)) answer))) := by
  have hp : ∀ key', textSet r key' ⟨r, .cache (.l1Insert key text), answer, s.1, s'⟩ = none :=
    textSet_other (Or.inr fun _ _ _ => nofun)
  have hown := h.own g hγ
  cases g with
  | refreshing last stored failed =>
    obtain ⟨window, ct, now, rows, hlast, hkey, hjson⟩ := hask
    obtain ⟨hfailed, hkeys, hrows⟩ := hown
    obtain ⟨hlength, hasked⟩ := hrows ct _ rows hlast
    have hs' : s'.cache = s.1.cache.put .l1 key (some text) := by
      cases x with
      | cache x =>
        cases x with
        | ok => cases hs; rfl
        | _ => cases hs
      | _ => cases hs
    refine ⟨fun key' text' htext hne => ?_, fun key' text' htext => ?_, fun g hg => ?_⟩
    · rw [storedBy_other (hp key')] at htext
      obtain ⟨hget, hl1⟩ := h.fresh key' text' htext fun _ _ _ => by rw [hγ]; exact nofun
      have hkey' : key' ≠ key := by
        rintro rfl
        exact hne text stored failed (Function.update_self _ _ _)
      refine ⟨by rw [hs']; exact hget, fun v hv => hl1 v ?_⟩
      rw [hs'] at hv
      have hv : Function.update s.1.cache.l1 key (some text) key' = some v := hv
      rwa [Function.update_of_ne hkey'] at hv
    · rw [storedBy_other (hp key')] at htext
      exact (h.source key' text' htext).append _
    · rw [Function.update_self] at hg
      cases hg
      refine ⟨hfailed, fun key' hkey' => ?_, fun v hv => ?_, ?_⟩
      · rw [storedBy_other (hp key')]
        exact hkeys key' hkey'
      · rw [hs'] at hv
        have hv : Function.update s.1.cache.l1 key (some text) key = some v := hv
        rw [Function.update_self] at hv
        exact (Option.some.inj hv).symm
      · exact ⟨window, ct, now, rows, hkey, hjson, hlength, hasked.append _⟩
  | storing key json stored failed => exact hask.elim
  | _ => exact hown.elim

/-- The task writes a text to Redis. -/
theorem Holding.redisSetEx {r : ι} {s : Boards × Record ι} {s' : Boards}
    {γ : ι → Option BoardPhase} (h : Holding L r s γ) {g : BoardPhase} (hγ : γ r = some g)
    {key : CacheKey} {text : String} {secs : ℕ} {x : BoardChoice} {answer : Unit}
    (hx : x ≠ .cache .fail) (hask : g.asks L (.cache (.redisSetEx key text secs)))
    (hs : handle L s.1 (.cache (.redisSetEx key text secs)) x = some (s', answer)) :
    Holding L r (s', s.2 ++ [⟨r, .cache (.redisSetEx key text secs), answer, s.1, s'⟩])
      (Function.update γ r (some (g.next (.cache (.redisSetEx key text secs)) answer))) := by
  have hown := h.own g hγ
  cases g with
  | storing key' json stored failed =>
    obtain ⟨rfl, rfl⟩ := hask
    obtain ⟨hfailed, hkeys, hl1text, hsource⟩ := hown
    have hs' : s'.cache = s.1.cache.put .redis key (some text) := by
      cases x with
      | cache x =>
        cases x with
        | ok => cases hs; rfl
        | fail => exact absurd rfl hx
        | _ => cases hs
      | _ => cases hs
    set p : Performed ι Boards BoardOp BoardOp.Ans :=
      ⟨r, .cache (.redisSetEx key text secs), answer, s.1, s'⟩ with hp
    have hself : storedBy (s.2 ++ [p]) r key = some text := by
      rw [storedBy_append]
      simp [textSet, hp]
    have hother : ∀ key', key' ≠ key → storedBy (s.2 ++ [p]) r key' = storedBy s.2 r key' := by
      intro key' hne
      refine storedBy_other ?_
      simp [textSet, hp, Ne.symm hne]
    refine ⟨fun key' text' htext _ => ?_, fun key' text' htext => ?_, fun g hg => ?_⟩
    · by_cases hkey : key' = key
      · subst hkey
        rw [hself] at htext
        cases htext
        refine ⟨by rw [hs']; exact Function.update_self _ _ _, fun v hv => hl1text v ?_⟩
        rw [hs'] at hv
        exact hv
      · rw [hother key' hkey] at htext
        obtain ⟨hget, hl1⟩ := h.fresh key' text' htext fun _ _ _ => by
          rw [hγ]
          intro heq
          cases heq
          exact hkey rfl
        refine ⟨?_, fun v hv => hl1 v (by rw [hs'] at hv; exact hv)⟩
        rw [hs']
        show Function.update s.1.cache.redis key (some text) key' = some text'
        rw [Function.update_of_ne hkey]
        exact hget
    · by_cases hkey : key' = key
      · subst hkey
        rw [hself] at htext
        cases htext
        exact hsource.append p
      · rw [hother key' hkey] at htext
        exact (h.source key' text' htext).append p
    · rw [Function.update_self] at hg
      cases hg
      refine ⟨hfailed, fun key' hkey' => ?_, fun _ _ _ hlast => by cases hlast⟩
      by_cases hkey : key' = key
      · rw [hkey, hself]
        exact Option.some_ne_none text
      · rw [hother key' hkey]
        exact hkeys key' ((List.mem_cons.mp hkey').resolve_left hkey)
  | refreshing last stored failed => exact hask.elim
  | _ => exact hown.elim

/-- Any other operation of the task. -/
theorem Own.next {r : ι} {s : Boards × Record ι} {s' : Boards} {o : BoardOp} {answer : o.Ans}
    {x : BoardChoice} {g : BoardPhase} (h : Own L r s g) (hask : g.asks L o)
    (hs : handle L s.1 o x = some (s', answer))
    (hinsert : ∀ key text, o ≠ .cache (.l1Insert key text))
    (hset : ∀ key text secs, o ≠ .cache (.redisSetEx key text secs))
    (hok : ∀ contentType since limit, o = .query contentType since limit →
      ∃ t rows, handle L s.1 (.query contentType since limit) x = some (t, .ok rows)) :
    Own L r (s', s.2 ++ [⟨r, o, answer, s.1, s'⟩]) (g.next o answer) := by
  have hp : ∀ key', textSet r key' ⟨r, o, answer, s.1, s'⟩ = none :=
    textSet_other (Or.inr hset)
  cases g with
  | refreshing last stored failed =>
    have hsame : Own L r (s', s.2 ++ [⟨r, o, answer, s.1, s'⟩]) (refreshing last stored failed) :=
      h.append hp fun key v _ => Or.inr fun _ _ _ => nofun
    cases o with
    | cache o =>
      cases o with
      | l1Insert key text => exact absurd rfl (hinsert key text)
      | _ => exact hask.elim
    | query contentType since limit =>
      obtain ⟨t, rows, ht⟩ := hok contentType since limit rfl
      obtain ⟨rfl, rfl⟩ := Prod.mk.inj (Option.some.inj (ht.symm.trans hs))
      cases contentType with
      | none => exact hsame
      | some ct =>
        obtain rfl : limit = leaderboardLimit := hask
        refine ⟨h.1, hsame.2.1, fun ct' since' rows' hrows => ?_⟩
        cases hrows
        exact ⟨length_of_query ht, _, _, List.mem_append_right _ (List.mem_singleton_self _)⟩
    | _ => exact hsame
  | storing key json stored failed =>
    cases o with
    | cache o =>
      cases o with
      | redisSetEx key text secs => exact absurd rfl (hset key text secs)
      | _ => exact hask.elim
    | _ => exact hask.elim
  | _ => exact h.elim

/-- What the task is doing has not changed. -/
theorem Holding.same {r : ι} {s : Boards × Record ι} {γ γ' : ι → Option BoardPhase}
    (h : Holding L r s γ) (hsame : γ' r = γ r) : Holding L r s γ' where
  fresh key text htext hne := h.fresh key text htext (by rwa [hsame] at hne)
  source := h.source
  own g hg := h.own g (hsame ▸ hg)

/-- The task starts. -/
theorem Holding.start {r : ι} {s : Boards × Record ι} {γ : ι → Option BoardPhase}
    (h : Holding L r s γ) (hγ : γ r = none) :
    Holding L r s (Function.update γ r (some BoardCall.refreshAllWindows.first)) where
  fresh key text htext _ := h.fresh key text htext fun _ _ _ => by rw [hγ]; exact nofun
  source := h.source
  own g hg := by
    rw [Function.update_self] at hg
    cases hg
    exact ⟨rfl, fun key hkey => absurd hkey List.not_mem_nil, fun _ _ _ hlast => by cases hlast⟩

/-- A call other than the task puts into L1 what Redis holds, while the task is not running. -/
theorem Holding.l1InsertOther {r i : ι} {s : Boards × Record ι} {s' : Boards}
    {γ : ι → Option BoardPhase} (h : Holding L r s γ) (hir : i ≠ r) (hnone : γ r = none)
    {key : CacheKey} {text : String} (hredis : s.1.cache.redis key = some text)
    {x : BoardChoice} {answer : Unit}
    (hs : handle L s.1 (.cache (.l1Insert key text)) x = some (s', answer)) (g : Option BoardPhase) :
    Holding L r (s', s.2 ++ [⟨i, .cache (.l1Insert key text), answer, s.1, s'⟩])
      (Function.update γ i g) := by
  have hγ' : Function.update γ i g r = none := by rw [Function.update_of_ne (Ne.symm hir), hnone]
  have hs' : s'.cache = s.1.cache.put .l1 key (some text) := by
    cases x with
    | cache x =>
      cases x with
      | ok => cases hs; rfl
      | _ => cases hs
    | _ => cases hs
  refine h.append (textSet_other (Or.inl hir)) (by rw [hs']; rfl) (fun key' v hv => ?_)
    (fun _ _ _ _ hr => ?_) fun g hg => ?_
  · rw [hs'] at hv
    have hv : Function.update s.1.cache.l1 key (some text) key' = some v := hv
    by_cases hkey : key' = key
    · rw [hkey, Function.update_self] at hv
      cases hv
      exact Or.inr ⟨hnone, by rw [hkey]; exact hredis⟩
    · rw [Function.update_of_ne hkey] at hv
      exact Or.inl hv
  · rw [hnone] at hr
    cases hr
  · rw [hγ'] at hg
    cases hg

/-- Any other operation of any call. -/
theorem Holding.other {r i : ι} {s : Boards × Record ι} {s' : Boards}
    {γ : ι → Option BoardPhase} (h : Holding L r s γ) {g : BoardPhase} (hγ : γ i = some g)
    {o : BoardOp} {x : BoardChoice} {answer : o.Ans} (hask : g.asks L o)
    (hs : handle L s.1 o x = some (s', answer))
    (hinsert : ∀ key text, o ≠ .cache (.l1Insert key text))
    (hset : ∀ key text secs, o ≠ .cache (.redisSetEx key text secs))
    (hok : i = r → ∀ contentType since limit, o = .query contentType since limit →
      ∃ t rows, handle L s.1 (.query contentType since limit) x = some (t, .ok rows)) :
    Holding L r (s', s.2 ++ [⟨i, o, answer, s.1, s'⟩])
      (Function.update γ i (some (g.next o answer))) := by
  have hdel : ∀ key, o ≠ .cache (.redisDel key) := by
    rintro key rfl
    cases g <;> exact hask
  obtain ⟨hredis, hl1⟩ := handle_cache hs hinsert hset hdel
  refine h.append (textSet_other (Or.inr hset)) hredis (fun key v hv => Or.inl (hl1 key v hv))
    (fun key text stored failed hr => ?_) fun g' hg' => ?_
  · by_cases hir : i = r
    · -- the task performs nothing else while it is storing
      subst hir
      cases hγ.symm.trans hr
      cases o with
      | cache o =>
        cases o with
        | redisSetEx key text secs => exact absurd rfl (hset key text secs)
        | _ => exact hask.elim
      | _ => exact hask.elim
    · rw [Function.update_of_ne (Ne.symm hir)]
      exact hr
  · rcases Pool.ghost_of_update hg' with ⟨rfl, hnext⟩ | ⟨hri, hsame⟩
    · cases hnext
      exact (h.own g hγ).next hask hs hinsert hset (hok rfl)
    · exact (h.own g' hsame).append (textSet_other (Or.inl (Ne.symm hri)))
        fun key v hv => Or.inl (hl1 key v hv)

/-- A call ends in no phase in which it is storing. -/
theorem BoardCall.ends_not_storing {contentTypes : List String} {k : BoardCall} {g : BoardPhase}
    {a : BoardResult} (h : k.Ends L contentTypes g a) (key : CacheKey) (text : String)
    (stored : List CacheKey) (failed : Bool) : g ≠ .storing key text stored failed := by
  rintro rfl
  cases k with
  | refreshAllWindows =>
    obtain ⟨_, _, _, heq, -⟩ := h
    cases heq
  | getLeaderboard contentType window limit =>
    cases contentType with
    | none => cases h
    | some ct =>
      obtain ⟨_, -, ⟨_, heq, -⟩ | heq⟩ := h
      · cases heq
      · cases heq

/-- A call is over. -/
theorem Holding.over {r i : ι} {s : Boards × Record ι} {γ : ι → Option BoardPhase}
    (h : Holding L r s γ) {g : BoardPhase} (hγ : γ i = some g)
    (hg : ∀ key text stored failed, g ≠ .storing key text stored failed) :
    Holding L r s (Function.update γ i none) := by
  by_cases hir : i = r
  · subst hir
    refine ⟨fun key text htext _ => h.fresh key text htext fun text' stored failed hr => ?_,
      h.source, fun g' hg' => ?_⟩
    · exact hg key text' stored failed (Option.some.inj (hγ.symm.trans hr))
    · rw [Function.update_self] at hg'
      cases hg'
  · exact h.same (Function.update_of_ne (Ne.symm hir) _ _)

/-- The environment does something. -/
theorem Holding.environment {r : ι} {c : BoardConfig ι} {x : BoardChoice} {s' : Boards}
    {γ : ι → Option BoardPhase} (h : Holding L r c.shared γ) (hx : Undisturbed L r c (.env x))
    (hs : Leaderboard.environment c.shared.1 x = some s') : Holding L r (s', c.shared.2) γ := by
  have hcaches := environment_cache hx hs
  refine ⟨fun key text htext hne => ?_, h.source, fun g hg => ?_⟩
  · obtain ⟨window, ct, -, -, hkey, -⟩ := h.source key text htext
    obtain ⟨hget, hl1⟩ := h.fresh key text htext hne
    refine ⟨?_, fun v hv => hl1 v (hcaches.2 key v hv)⟩
    rw [hcaches.1 key (by rw [hkey]; trivial)]
    exact hget
  · have hown := h.own g hg
    cases g with
    | storing key json stored failed =>
      exact ⟨hown.1, hown.2.1, fun v hv => hown.2.2.1 v (hcaches.2 key v hv), hown.2.2.2⟩
    | refreshing last stored failed => exact hown
    | _ => exact hown.elim

/-- The steps keep `Holding`. -/
theorem holding_keeps (hL : L.Documented) (ttl : ℕ) (contentTypes : List String) (r : ι) :
    Pool.Keeps (boards L ttl contentTypes).recorded (boardPhases L) (BoardCall.Ends L contentTypes)
      BoardCall.first (Holding L r) fun c a =>
        Undisturbed L r c a ∧ ∀ k, a = .start r k → k = .refreshAllWindows where
  prog := BoardCall.obeys hL contentTypes
  start c i k s γ ha h hγ hs := by
    have hs : some (c.shared.1, c.shared.2) = some s := hs
    cases hs
    by_cases hir : i = r
    · subst hir
      rw [ha.2 k rfl]
      exact h.start hγ
    · exact h.same (Function.update_of_ne (Ne.symm hir) _ _)
  handle c i x k o f s answer γ g ha h hF hi hγ hask hs := by
    obtain ⟨s', hs', rfl⟩ := Pool.recorded_handle hs
    refine ⟨_, rfl, ?_⟩
    have hguard := ha.1
    simp only [Undisturbed, hi] at hguard
    by_cases hinsert : ∃ key text, o = .cache (.l1Insert key text)
    · obtain ⟨key, text, rfl⟩ := hinsert
      by_cases hir : i = r
      · subst hir
        exact h.l1Insert hγ hask hs'
      · obtain ⟨hidle, hredis⟩ := hguard.resolve_left hir
        exact h.l1InsertOther hir ((hF r).none_of_not_active hidle) hredis hs' _
    · by_cases hset : ∃ key text secs, o = .cache (.redisSetEx key text secs)
      · obtain ⟨key, text, secs, rfl⟩ := hset
        obtain ⟨rfl, hx⟩ := hguard
        exact h.redisSetEx hγ hx hask hs'
      · refine h.other hγ hask hs' (fun key text ho => hinsert ⟨key, text, ho⟩)
          (fun key text secs ho => hset ⟨key, text, secs, ho⟩)
          fun hir contentType since limit ho => ?_
        subst ho
        exact hguard hir
  ret s i k γ g a h hγ ha := h.over hγ (BoardCall.ends_not_storing ha)
  drop c i k p s γ g ha h hF hi hγ hs := by
    have hs : some (c.shared.1, c.shared.2) = some s := hs
    cases hs
    exact h.same (Function.update_of_ne (Ne.symm ha.1) _ _)
  env c x s γ ha h hs := by
    obtain ⟨s', hs', rfl⟩ := Option.map_eq_some_iff.mp hs
    exact h.environment ha.1 hs'

/-- When the task has returned, it has stored the boards of all windows and content types. -/
theorem stored_of_returned (hL : L.Documented) {ttl : ℕ} {contentTypes : List String} {r : ι}
    {c₀ c₁ : BoardConfig ι} {acts : List (Act ι BoardCall BoardChoice)}
    (hreach : (boards L ttl contentTypes).recorded.machine.Reachable c₀)
    (hidle : c₀.calls r = .idle)
    (hrun : (boards L ttl contentTypes).recorded.machine.run c₀ acts = some c₁)
    (hmeets : (boards L ttl contentTypes).recorded.machine.Meets (Undisturbed L r) c₀ acts)
    {result : BoardResult} (hdone : c₁.calls r = .returned .refreshAllWindows result) :
    Pool.Inv (boardPhases L) (BoardCall.Ends L contentTypes) (Holding L r) c₁ ∧
      ∀ window, ∀ ct ∈ contentTypes,
        storedBy c₁.shared.2 r (.lbf window ct leaderboardLimit.toNat) ≠ none := by
  have hempty : ∀ key, storedBy c₀.shared.2 r key = none := by
    intro key
    have hnone : c₀.shared.2.filterMap (textSet r key) = [] := by
      refine List.filterMap_eq_nil_iff.mpr fun p hp => textSet_other (Or.inl ?_) key
      rintro rfl
      exact Pool.not_idle_of_performed hreach p hp hidle
    unfold storedBy
    rw [hnone]
    rfl
  -- the calls at `c₀` follow the protocol, and `r` has written nothing yet
  have hphases : Pool.Inv (boardPhases L) (BoardCall.Ends L contentTypes) (fun _ _ => True) c₀ := by
    have S : Pool.Sound (boards (ι := ι) L ttl contentTypes).recorded (boardPhases L)
        (BoardCall.Ends L contentTypes) BoardCall.first (fun _ _ => True) fun _ _ => True :=
      { prog := BoardCall.obeys hL contentTypes
        start := fun _ _ _ _ _ _ _ _ _ => trivial
        handle := fun _ _ _ _ _ _ _ _ _ _ _ _ _ _ _ _ _ => ⟨_, rfl, trivial⟩
        ret := fun _ _ _ _ _ _ _ _ _ => trivial
        drop := fun _ _ _ _ _ _ _ _ _ _ _ _ _ => trivial
        env := fun _ _ _ _ _ _ _ => trivial
        init := fun _ _ => trivial }
    exact S.reachable hreach
  obtain ⟨γ, -, hF⟩ := hphases
  have hγ : γ r = none := by
    have hFr := hF r
    rw [hidle] at hFr
    exact hFr
  have hholding : Holding L r c₀.shared γ :=
    ⟨fun key text htext => absurd ((hempty key).symm.trans htext) nofun,
      fun key text htext => absurd ((hempty key).symm.trans htext) nofun,
      fun g hg => absurd (hγ.symm.trans hg) nofun⟩
  have hstart := Pool.meets_start_of_request hrun (i := r) (k := .refreshAllWindows)
    (by rw [hdone]; rfl)
  obtain ⟨hinv, hreturns⟩ := (holding_keeps hL ttl contentTypes r).returns_of_inv
    (R := fun s i k _ => i = r → k = .refreshAllWindows → ∀ window, ∀ ct ∈ contentTypes,
      storedBy s.2 r (.lbf window ct leaderboardLimit.toNat) ≠ none)
    (by
      rintro s i k γ g a h hγ ha rfl rfl window ct hct
      obtain ⟨last, stored, failed, rfl, -, hfailed⟩ := ha
      obtain ⟨hok, hkeys, -⟩ := h.own _ hγ
      refine hkeys _ ((hfailed hok).2 (List.mem_flatMap.mpr ⟨window, ?_, ?_⟩))
      · cases window <;> decide
      · exact List.mem_map_of_mem hct)
    (by
      intro c a c' ha hstep i k b hi hR hir hk window ct hct
      rcases Pool.record_step hstep with hsame | ⟨p, happend, -⟩
      · rw [hsame]
        exact hR hir hk window ct hct
      · rw [happend, storedBy_append]
        cases textSet r (.lbf window ct leaderboardLimit.toNat) p with
        | none => exact hR hir hk window ct hct
        | some text => exact nofun)
    ⟨γ, hholding, hF⟩ (fun i k b hi hir => (by rw [hir, hidle] at hi; cases hi))
    (hmeets.and hstart) hrun
  exact ⟨hinv, hreturns r _ _ hdone rfl rfl⟩

end Runs

end SocialApi.Leaderboard
