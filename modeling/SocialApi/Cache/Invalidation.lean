import SocialApi.Concurrent.Machine
import SocialApi.Keys

/-!
# Invalidating the in-process caches

`CacheManager` of `cache.rs` with both of its moka caches, the strings and the ranges of
sorted sets, under the keys as the code writes them. The operations run one after another;
what Redis answers is left open, time passes between them, and entries leave a cache when
they expire or are evicted.

moka is not part of the repository. `Moka` is what is documented of it: an entry is served
until its time to live is over, and `invalidate_entries_if` is an error, and removes nothing,
unless the cache has been built with `support_invalidation_closures`.

Each entry carries the number of the call that put it into the cache; no answer depends on
it.

* `invalidates_nothing`: `CacheManager::new` does not ask for invalidation closures, so that
  the predicates of `replace_sorted_set`, `del_many` and `invalidate_l1_prefix` remove nothing.
* `freshAfter_iff`: after such a call no later read returns what was in L1 before it, if and
  only if nothing was.
-/

namespace SocialApi.LocalCache

open SocialApi.Concurrent

variable {V F : Type}

/-! ## moka -/

/-- `moka::future::CacheBuilder`. -/
structure CacheBuilder where
  maxCapacity : Option ℕ
  timeToLive : Option ℕ
  supportInvalidationClosures : Bool
  deriving DecidableEq, Repr

/-- `Cache::builder()`. -/
def CacheBuilder.new : CacheBuilder := ⟨none, none, false⟩

/-- The time of a call in milliseconds, and its number. -/
structure Moment where
  now : ℕ
  call : ℕ

/-- A value, the time it was inserted, and the number of the call that inserted it. -/
structure Entry (V : Type) where
  value : V
  insertedAt : ℕ
  put : ℕ

/-- `moka::future::Cache<String, V>`. -/
structure Moka (V : Type) where
  builder : CacheBuilder
  entries : String → Option (Entry V)

/-- `PredicateError`. -/
inductive PredicateError where
  | invalidationClosuresDisabled

namespace Moka

/-- `CacheBuilder::build`. -/
def build (builder : CacheBuilder) : Moka V := ⟨builder, fun _ => none⟩

/-- Whether an entry is still served. -/
def live (c : Moka V) (now : ℕ) (e : Entry V) : Bool :=
  c.builder.timeToLive.all fun ttl => now < e.insertedAt + ttl

/-- `Cache::get`. -/
def get (c : Moka V) (now : ℕ) (key : String) : Option (Entry V) :=
  (c.entries key).filter (c.live now)

/-- `Cache::insert`. -/
def insert (c : Moka V) (m : Moment) (key : String) (value : V) : Moka V :=
  { c with entries := Function.update c.entries key (some ⟨value, m.now, m.call⟩) }

/-- `Cache::remove`. -/
def remove (c : Moka V) (key : String) : Moka V :=
  { c with entries := Function.update c.entries key none }

/-- `Cache::invalidate_entries_if`. -/
def invalidateEntriesIf (c : Moka V) (p : String → V → Bool) : Moka V × Except PredicateError Unit :=
  if c.builder.supportInvalidationClosures then
    ({ c with entries := fun key => (c.entries key).filter fun e => !p key e.value }, .ok ())
  else (c, .error .invalidationClosuresDisabled)

end Moka

/-! ## The manager -/

/-- `CacheManager` (cache.rs:42–48) without its pool. -/
structure CacheManager (F : Type) where
  l1Strings : Moka String
  l1Zsets : Moka (List (String × F))

/-- The builder of a cache with a capacity and a time to live. -/
def l1Builder (ttlMs maxCapacity : ℕ) : CacheBuilder :=
  { CacheBuilder.new with maxCapacity := some maxCapacity, timeToLive := some ttlMs }

/-- `CacheManager::new` (cache.rs:51–75). -/
def CacheManager.new (ttlMs maxCapacity : ℕ) : CacheManager F where
  l1Strings := .build (l1Builder ttlMs maxCapacity)
  l1Zsets := .build (l1Builder ttlMs (maxCapacity / 10))

/-- `k.starts_with(&prefix)`. -/
def startsWith (start key : String) : Bool := start.toList.isPrefixOf key.toList

/-- `format!("{key}:{start}:{stop}")`. -/
def rangeKey (key : String) (start stop : ℤ) : String :=
  key ++ ":" ++ toString start ++ ":" ++ toString stop

/-- What Redis answers: the pool or the command fails, a command without a result works, or
    one with a result. -/
inductive Reply (F : Type) where
  | error
  | done
  | text (val : Option String)
  | texts (vals : List (Option String))
  | pairs (pairs : List (String × F))
  deriving DecidableEq, Repr

/-- A value, from L1 with the number of the call that put it there, or not from L1. -/
inductive Served (V : Type) where
  | l1 (value : V) (put : ℕ)
  | fetched (value : V)
  deriving DecidableEq, Repr

/-- The public operations. -/
inductive Call (F : Type) where
  | get (key : String)
  | set (key value : String) (ttlSecs : ℕ)
  | setMany (entries : List (String × String × ℕ))
  | del (key : String)
  | invokeScript (script : String) (keys args : List String)
  | mget (keys : List String)
  | publish (channel message : String)
  | replaceSortedSet (key : String) (members : List (String × F))
  | zrevrangeWithScores (key : String) (start stop : ℤ)
  | delMany (keys : List String)
  | invalidateL1Prefix (start : String)
  | isHealthy
  deriving DecidableEq, Repr

/-- What they return; `remote` where it is Redis that says. -/
inductive Answer (F : Type) where
  | unit
  | text (val : Option (Served String))
  | texts (vals : List (Option (Served String)))
  | pairs (pairs : Served (List (String × F)))
  | remote
  deriving DecidableEq, Repr

namespace CacheManager

variable (c : CacheManager F) (m : Moment)

/-- `l1_strings.insert`. -/
def insertString (key value : String) : CacheManager F :=
  { c with l1Strings := c.l1Strings.insert m key value }

/-- `get` (cache.rs:79–103). -/
def get (key : String) (reply : Reply F) : CacheManager F × Option (Served String) :=
  match c.l1Strings.get m.now key with
  | some e => (c, some (.l1 e.value e.put))
  | none =>
    match reply with
    | .text (some val) => (c.insertString m key val, some (.fetched val))
    | _ => (c, none)

/-- The L1 half of `set_many` (cache.rs:139–143). -/
def setMany : List (String × String × ℕ) → CacheManager F → CacheManager F
  | [], c => c
  | (key, value, _) :: entries, c => setMany entries (c.insertString m key value)

/-- `redis_needed`: the positions and keys without an L1 value. -/
def redisNeeded (keys : List String) (results : List (Option (Served String))) :
    List (ℕ × String) :=
  ((keys.zip results).zipIdx.filter fun e => e.1.2.isNone).map fun e => (e.2, e.1.1)

/-- The loop over the answer of `MGET` (cache.rs:261–270). -/
def mgetFill : List ((ℕ × String) × Option String) → CacheManager F →
    List (Option (Served String)) → CacheManager F × List (Option (Served String))
  | [], c, results => (c, results)
  | ((idx, key), some val) :: rest, c, results =>
    mgetFill rest (c.insertString m key val) (results.set idx (some (.fetched val)))
  | ((idx, _), none) :: rest, c, results => mgetFill rest c (results.set idx none)

/-- `mget` (cache.rs:219–277). -/
def mget (keys : List String) (reply : Reply F) :
    CacheManager F × List (Option (Served String)) :=
  let results := keys.map fun key =>
    (c.l1Strings.get m.now key).map fun e => .l1 e.value e.put
  match reply with
  | .texts vals => mgetFill m ((redisNeeded keys results).zip vals) c results
  | _ => (c, results)

/-- `l1_zsets.invalidate_entries_if(…).ok()` for the ranges of a key. -/
def invalidateRanges (key : String) : CacheManager F :=
  { c with l1Zsets := (c.l1Zsets.invalidateEntriesIf fun k _ => startsWith (key ++ ":") k).1 }

/-- `zrevrange_with_scores` (cache.rs:331–369). -/
def zrevrangeWithScores (key : String) (start stop : ℤ) (reply : Reply F) :
    CacheManager F × Served (List (String × F)) :=
  match c.l1Zsets.get m.now (rangeKey key start stop) with
  | some e => (c, .l1 e.value e.put)
  | none =>
    match reply with
    | .pairs [] => (c, .fetched [])
    | .pairs pairs =>
      ({ c with l1Zsets := c.l1Zsets.insert m (rangeKey key start stop) pairs }, .fetched pairs)
    | _ => (c, .fetched [])

/-- The L1 half of `del_many` (cache.rs:382–390). -/
def delMany : List String → CacheManager F → CacheManager F
  | [], c => c
  | key :: keys, c =>
    delMany keys ({ c with l1Strings := c.l1Strings.remove key }.invalidateRanges key)

/-- `invalidate_l1_prefix` (cache.rs:411–416). -/
def invalidateL1Prefix (start : String) : CacheManager F :=
  { c with l1Strings := (c.l1Strings.invalidateEntriesIf fun k _ => startsWith start k).1 }

/-- One call. -/
def perform : Call F → Reply F → CacheManager F × Answer F
  | .get key, reply => let r := c.get m key reply; (r.1, .text r.2)
  | .set key value _, _ => (c.insertString m key value, .unit)
  | .setMany entries, _ => (setMany m entries c, .unit)
  | .del key, _ => ({ c with l1Strings := c.l1Strings.remove key }, .unit)
  | .invokeScript _ _ _, _ => (c, .remote)
  | .mget keys, reply => let r := c.mget m keys reply; (r.1, .texts r.2)
  | .publish _ _, _ => (c, .unit)
  | .replaceSortedSet key _, _ => (c.invalidateRanges key, .unit)
  | .zrevrangeWithScores key start stop, reply =>
    let r := c.zrevrangeWithScores m key start stop reply; (r.1, .pairs r.2)
  | .delMany keys, _ => (delMany keys c, .unit)
  | .invalidateL1Prefix start, _ => (c.invalidateL1Prefix start, .unit)
  | .isHealthy, _ => (c, .remote)

end CacheManager

/-! ## Runs -/

/-- The caches, the time, and the calls so far with their answers. -/
structure History (F : Type) where
  manager : CacheManager F
  now : ℕ
  log : List (Call F × Answer F)

/-- A call, with what Redis answers to it; or time passes, or an entry is evicted. -/
inductive Event (F : Type) where
  | call (c : Call F) (reply : Reply F)
  | wait (millis : ℕ)
  | evictString (key : String)
  | evictZset (key : String)

/-- The effect of an event. -/
def step (s : History F) : Event F → Option (History F)
  | .call c reply =>
    let r := s.manager.perform ⟨s.now, s.log.length⟩ c reply
    some { s with manager := r.1, log := s.log ++ [(c, r.2)] }
  | .wait millis => some { s with now := s.now + millis }
  | .evictString key =>
    some { s with manager := { s.manager with l1Strings := s.manager.l1Strings.remove key } }
  | .evictZset key =>
    some { s with manager := { s.manager with l1Zsets := s.manager.l1Zsets.remove key } }

/-- The sequential runs of a manager with the given settings. -/
def sequential (F : Type) (ttlMs maxCapacity : ℕ) : Machine (History F) (Event F) where
  init s := s = ⟨.new ttlMs maxCapacity, 0, []⟩
  step := step

/-! ## What is read -/

/-- What is cached in L1: the string of a key, or a range of a sorted set. -/
inductive Slot where
  | text (key : String)
  | range (key : String) (start stop : ℤ)
  deriving DecidableEq, Repr

/-- The number of the call that put what L1 serves for a slot. -/
def CacheManager.cached (c : CacheManager F) (now : ℕ) : Slot → Option ℕ
  | .text key => (c.l1Strings.get now key).map Entry.put
  | .range key start stop => (c.l1Zsets.get now (rangeKey key start stop)).map Entry.put

/-- What is no longer to be served from L1 after a call. -/
def Call.Invalidates : Call F → Slot → Prop
  | .replaceSortedSet key _, .range key' _ _ => key' = key
  | .delMany keys, .range key _ _ => key ∈ keys
  | .invalidateL1Prefix start, .text key => startsWith start key = true
  | _, _ => False

/-- The answer shows what the call `put` had put into L1 for the slot. -/
def Shows : Call F → Answer F → Slot → ℕ → Prop
  | .get key, .text val, .text key', put => key' = key ∧ ∃ v, val = some (.l1 v put)
  | .mget keys, .texts vals, .text key, put =>
    ∃ (i : ℕ) (v : String), keys[i]? = some key ∧ vals[i]? = some (some (.l1 v put))
  | .zrevrangeWithScores key start stop, .pairs pairs, .range key' start' stop', put =>
    key' = key ∧ start' = start ∧ stop' = stop ∧ ∃ v, pairs = .l1 v put
  | _, _, _, _ => False

/-- No call after number `n`, the call `c`, has returned what was put into L1 before it and
    what `c` invalidates. -/
def Fresh (n : ℕ) (c : Call F) (log : List (Call F × Answer F)) : Prop :=
  ∀ m r slot put, n < m → log[m]? = some r → c.Invalidates slot → Shows r.1 r.2 slot put → n ≤ put

/-! ## The caches -/

namespace Moka

variable {c : Moka V} {m : Moment} {now now' : ℕ} {key key' : String} {value : V} {e : Entry V}

theorem get_eq_some : c.get now key = some e ↔ c.entries key = some e ∧ c.live now e = true :=
  Option.filter_eq_some_iff

/-- What is served has been served before, since it was inserted. -/
theorem get_earlier (hle : now ≤ now') (h : c.get now' key = some e) : c.get now key = some e := by
  obtain ⟨hentry, hlive⟩ := get_eq_some.mp h
  refine get_eq_some.mpr ⟨hentry, ?_⟩
  unfold live at hlive ⊢
  cases httl : c.builder.timeToLive with
  | none => rfl
  | some ttl =>
    rw [httl, Option.all_some, decide_eq_true_eq] at hlive
    rw [Option.all_some, decide_eq_true_eq]
    omega

/-- After an insertion what is served is the new entry or was served before. -/
theorem get_insert (h : (c.insert m key value).get now key' = some e) :
    c.get now key' = some e ∨ e.put = m.call := by
  obtain ⟨hentry, hlive⟩ := get_eq_some.mp h
  have hentry : Function.update c.entries key (some ⟨value, m.now, m.call⟩) key' = some e := hentry
  by_cases hkey : key' = key
  · subst hkey
    rw [Function.update_self] at hentry
    cases hentry
    exact Or.inr rfl
  · rw [Function.update_of_ne hkey] at hentry
    exact Or.inl (get_eq_some.mpr ⟨hentry, hlive⟩)

theorem get_remove (h : (c.remove key).get now key' = some e) : c.get now key' = some e := by
  obtain ⟨hentry, hlive⟩ := get_eq_some.mp h
  have hentry : Function.update c.entries key none key' = some e := hentry
  by_cases hkey : key' = key
  · subst hkey
    rw [Function.update_self] at hentry
    cases hentry
  · rw [Function.update_of_ne hkey] at hentry
    exact get_eq_some.mpr ⟨hentry, hlive⟩

theorem get_invalidate {p : String → V → Bool}
    (h : (c.invalidateEntriesIf p).1.get now key = some e) : c.get now key = some e := by
  unfold invalidateEntriesIf at h
  split_ifs at h
  · obtain ⟨hentry, hlive⟩ := get_eq_some.mp h
    exact get_eq_some.mpr ⟨(Option.filter_eq_some_iff.mp hentry).1, hlive⟩
  · exact h

/-- Without invalidation closures nothing is removed. -/
theorem invalidate_eq (h : c.builder.supportInvalidationClosures = false) (p : String → V → Bool) :
    (c.invalidateEntriesIf p).1 = c := by
  unfold invalidateEntriesIf
  rw [if_neg (by simp [h])]

end Moka

/-- Neither cache has been built with invalidation closures. -/
def CacheManager.NoClosures (c : CacheManager F) : Prop :=
  c.l1Strings.builder.supportInvalidationClosures = false ∧
    c.l1Zsets.builder.supportInvalidationClosures = false

namespace CacheManager

variable {c : CacheManager F} {m : Moment} {slot : Slot} {put : ℕ}

theorem new_noClosures (ttlMs maxCapacity : ℕ) : (new ttlMs maxCapacity : CacheManager F).NoClosures :=
  ⟨rfl, rfl⟩

/-- What L1 serves after `c` has become `c'` was served before, or is new. -/
def Grows (m : Moment) (c c' : CacheManager F) : Prop :=
  ∀ slot put, c'.cached m.now slot = some put → c.cached m.now slot = some put ∨ put = m.call

theorem Grows.refl (m : Moment) (c : CacheManager F) : Grows m c c := fun _ _ h => Or.inl h

theorem Grows.trans {c c' c'' : CacheManager F} (h : Grows m c c') (h' : Grows m c' c'') :
    Grows m c c'' := by
  intro slot put hput
  rcases h' slot put hput with hput | hput
  · exact h slot put hput
  · exact Or.inr hput

theorem grows_of_gets {c' : CacheManager F}
    (hstrings : ∀ key e, c'.l1Strings.get m.now key = some e →
      c.l1Strings.get m.now key = some e ∨ e.put = m.call)
    (hzsets : ∀ key e, c'.l1Zsets.get m.now key = some e →
      c.l1Zsets.get m.now key = some e ∨ e.put = m.call) : Grows m c c' := by
  intro slot put hput
  cases slot with
  | text key =>
    obtain ⟨e, he, rfl⟩ := Option.map_eq_some_iff.mp hput
    rcases hstrings key e he with he | he
    · exact Or.inl (Option.map_eq_some_iff.mpr ⟨e, he, rfl⟩)
    · exact Or.inr he
  | range key start stop =>
    obtain ⟨e, he, rfl⟩ := Option.map_eq_some_iff.mp hput
    rcases hzsets _ e he with he | he
    · exact Or.inl (Option.map_eq_some_iff.mpr ⟨e, he, rfl⟩)
    · exact Or.inr he

theorem insertString_grows (key value : String) : Grows m c (c.insertString m key value) :=
  grows_of_gets (fun _ _ h => Moka.get_insert h) fun _ _ h => Or.inl h

theorem removeString_grows (key : String) :
    Grows m c { c with l1Strings := c.l1Strings.remove key } :=
  grows_of_gets (fun _ _ h => Or.inl (Moka.get_remove h)) fun _ _ h => Or.inl h

theorem invalidateRanges_grows (key : String) : Grows m c (c.invalidateRanges key) :=
  grows_of_gets (fun _ _ h => Or.inl h) fun _ _ h => Or.inl (Moka.get_invalidate h)

theorem setMany_grows (entries : List (String × String × ℕ)) :
    Grows m c (setMany m entries c) := by
  induction entries generalizing c with
  | nil => exact .refl m c
  | cons entry entries ih => exact (insertString_grows _ _).trans ih

theorem delMany_grows (keys : List String) : Grows m c (delMany keys c) := by
  induction keys generalizing c with
  | nil => exact .refl m c
  | cons key keys ih => exact ((removeString_grows key).trans (invalidateRanges_grows key)).trans ih

theorem mgetFill_grows (needed : List ((ℕ × String) × Option String))
    (results : List (Option (Served String))) : Grows m c (mgetFill m needed c results).1 := by
  induction needed generalizing c results with
  | nil => exact .refl m c
  | cons entry needed ih =>
    obtain ⟨⟨idx, key⟩, val⟩ := entry
    cases val with
    | none => exact ih _
    | some val => exact (insertString_grows key val).trans (ih _)

/-- A call adds only what it puts there itself. -/
theorem perform_grows (call : Call F) (reply : Reply F) :
    Grows m c (c.perform m call reply).1 := by
  cases call with
  | get key =>
    show Grows m c (c.get m key reply).1
    unfold get
    split
    · exact .refl m c
    · split
      · exact insertString_grows _ _
      · exact .refl m c
  | set key value ttlSecs => exact insertString_grows key value
  | setMany entries => exact setMany_grows entries
  | del key => exact removeString_grows key
  | mget keys =>
    show Grows m c (c.mget m keys reply).1
    unfold mget
    dsimp only
    split
    · exact mgetFill_grows _ _
    · exact .refl m c
  | replaceSortedSet key members => exact invalidateRanges_grows key
  | zrevrangeWithScores key start stop =>
    show Grows m c (c.zrevrangeWithScores m key start stop reply).1
    unfold zrevrangeWithScores
    split
    · exact .refl m c
    · split
      · exact .refl m c
      · exact grows_of_gets (fun _ _ h => Or.inl h) fun _ _ h => Moka.get_insert h
      · exact .refl m c
  | delMany keys => exact delMany_grows keys
  | invalidateL1Prefix start =>
    exact grows_of_gets (fun _ _ h => Or.inl (Moka.get_invalidate h)) fun _ _ h => Or.inl h
  | _ => exact .refl m c

/-- A range that is filled in has not been served from L1. -/
theorem mgetFill_l1 {needed : List ((ℕ × String) × Option String)}
    {results : List (Option (Served String))} {i : ℕ} {v : String}
    (h : (mgetFill m needed c results).2[i]? = some (some (.l1 v put))) :
    results[i]? = some (some (.l1 v put)) := by
  have hset : ∀ (results : List (Option (Served String))) (idx : ℕ) (r : Option (Served String)),
      (∀ put, r ≠ some (.l1 v put)) → (results.set idx r)[i]? = some (some (.l1 v put)) →
      results[i]? = some (some (.l1 v put)) := by
    intro results idx r hr hi
    rw [List.getElem?_set] at hi
    split_ifs at hi with hidx hlt
    · exact absurd (Option.some.inj hi) (hr put)
    · exact hi
  induction needed generalizing c results with
  | nil => exact h
  | cons entry needed ih =>
    obtain ⟨⟨idx, key⟩, val⟩ := entry
    cases val with
    | none => exact hset results idx none (fun _ he => by cases he) (ih h)
    | some val => exact hset results idx _ (fun _ he => by cases he) (ih h)

/-- An answer from L1 shows what L1 serves. -/
theorem perform_shows {call : Call F} {reply : Reply F}
    (h : Shows call (c.perform m call reply).2 slot put) : c.cached m.now slot = some put := by
  cases call with
  | get key =>
    have h : Shows (.get key) (.text (c.get m key reply).2) slot put := h
    cases slot with
    | range key start stop => exact h.elim
    | text key' =>
      obtain ⟨rfl, v, hv⟩ := h
      unfold get at hv
      split at hv
      · rename_i e he
        cases hv
        exact Option.map_eq_some_iff.mpr ⟨e, he, rfl⟩
      · split at hv <;> cases hv
  | mget keys =>
    have h : Shows (.mget keys) (.texts (c.mget m keys reply).2) slot put := h
    cases slot with
    | range key start stop => exact h.elim
    | text key =>
      obtain ⟨i, v, hkey, hv⟩ := h
      have hl1 : (keys.map fun key => (c.l1Strings.get m.now key).map fun e =>
          Served.l1 e.value e.put)[i]? = some (some (.l1 v put)) := by
        unfold mget at hv
        dsimp only at hv
        split at hv
        · exact mgetFill_l1 hv
        · exact hv
      rw [List.getElem?_map, hkey] at hl1
      obtain ⟨e, he, hserved⟩ := Option.map_eq_some_iff.mp (Option.some.inj hl1)
      cases hserved
      exact Option.map_eq_some_iff.mpr ⟨e, he, rfl⟩
  | zrevrangeWithScores key start stop =>
    have h : Shows (.zrevrangeWithScores key start stop)
      (.pairs (c.zrevrangeWithScores m key start stop reply).2) slot put := h
    cases slot with
    | text key => exact h.elim
    | range key' start' stop' =>
      obtain ⟨rfl, rfl, rfl, v, hv⟩ := h
      unfold zrevrangeWithScores at hv
      split at hv
      · rename_i e he
        cases hv
        exact Option.map_eq_some_iff.mpr ⟨e, he, rfl⟩
      · split at hv <;> cases hv
  | _ => exact h.elim

/-- The call that reads a slot. -/
def read : Slot → Call F
  | .text key => .get key
  | .range key start stop => .zrevrangeWithScores key start stop

/-- Reading what L1 serves shows it. -/
theorem shows_read (reply : Reply F) (h : c.cached m.now slot = some put) :
    Shows (read slot) (c.perform m (read slot) reply).2 slot put := by
  cases slot with
  | text key =>
    obtain ⟨e, he, rfl⟩ := Option.map_eq_some_iff.mp h
    have hget : c.get m key reply = (c, some (.l1 e.value e.put)) := by
      unfold get
      rw [he]
    show Shows (.get key) (.text (c.get m key reply).2) _ _
    rw [hget]
    exact ⟨rfl, e.value, rfl⟩
  | range key start stop =>
    obtain ⟨e, he, rfl⟩ := Option.map_eq_some_iff.mp h
    have hget : c.zrevrangeWithScores m key start stop reply = (c, .l1 e.value e.put) := by
      unfold zrevrangeWithScores
      rw [he]
    show Shows (.zrevrangeWithScores key start stop)
      (.pairs (c.zrevrangeWithScores m key start stop reply).2) _ _
    rw [hget]
    exact ⟨rfl, rfl, rfl, e.value, rfl⟩

/-! ### What the invalidating calls remove -/

theorem invalidateRanges_eq (h : c.NoClosures) (key : String) : c.invalidateRanges key = c := by
  unfold invalidateRanges
  rw [Moka.invalidate_eq h.2]

theorem delMany_l1Zsets (h : c.NoClosures) (keys : List String) :
    (delMany keys c).l1Zsets = c.l1Zsets := by
  induction keys generalizing c with
  | nil => rfl
  | cons key keys ih =>
    have hnext : ({ c with l1Strings := c.l1Strings.remove key }).NoClosures := h
    unfold delMany
    rw [invalidateRanges_eq hnext, ih hnext]

/-- The calls that invalidate slots leave them as they are. -/
theorem invalidates_nothing (h : c.NoClosures) {call : Call F} (reply : Reply F)
    (hslot : call.Invalidates slot) (now : ℕ) :
    (c.perform m call reply).1.cached now slot = c.cached now slot := by
  cases call with
  | replaceSortedSet key members =>
    show (c.invalidateRanges key).cached now slot = _
    rw [invalidateRanges_eq h]
  | delMany keys =>
    cases slot with
    | text key => exact hslot.elim
    | range key start stop =>
      show ((delMany keys c).l1Zsets.get now _).map _ = _
      rw [delMany_l1Zsets h]
      rfl
  | invalidateL1Prefix start =>
    show (c.invalidateL1Prefix start).cached now slot = _
    unfold invalidateL1Prefix
    rw [Moka.invalidate_eq h.1]
  | _ => exact hslot.elim

theorem setMany_builders (entries : List (String × String × ℕ)) :
    (setMany m entries c).l1Strings.builder = c.l1Strings.builder ∧
      (setMany m entries c).l1Zsets.builder = c.l1Zsets.builder := by
  induction entries generalizing c with
  | nil => exact ⟨rfl, rfl⟩
  | cons entry entries ih => exact ih

theorem mgetFill_builders (needed : List ((ℕ × String) × Option String))
    (results : List (Option (Served String))) :
    (mgetFill m needed c results).1.l1Strings.builder = c.l1Strings.builder ∧
      (mgetFill m needed c results).1.l1Zsets.builder = c.l1Zsets.builder := by
  induction needed generalizing c results with
  | nil => exact ⟨rfl, rfl⟩
  | cons entry needed ih =>
    obtain ⟨⟨idx, key⟩, val⟩ := entry
    cases val with
    | none => exact ih _
    | some val => exact ih _

theorem delMany_noClosures (h : c.NoClosures) (keys : List String) : (delMany keys c).NoClosures := by
  induction keys generalizing c with
  | nil => exact h
  | cons key keys ih =>
    have hnext : ({ c with l1Strings := c.l1Strings.remove key }).NoClosures := h
    unfold delMany
    rw [invalidateRanges_eq hnext]
    exact ih hnext

theorem perform_noClosures (h : c.NoClosures) (call : Call F) (reply : Reply F) :
    (c.perform m call reply).1.NoClosures := by
  cases call with
  | get key =>
    show (c.get m key reply).1.NoClosures
    unfold get
    split
    · exact h
    · split
      · exact h
      · exact h
  | setMany entries =>
    obtain ⟨hstrings, hzsets⟩ := setMany_builders (c := c) (m := m) entries
    show (setMany m entries c).NoClosures
    unfold NoClosures
    rw [hstrings, hzsets]
    exact h
  | mget keys =>
    show (c.mget m keys reply).1.NoClosures
    unfold mget
    dsimp only
    split
    · obtain ⟨hstrings, hzsets⟩ := mgetFill_builders (c := c) (m := m) _ _
      unfold NoClosures
      rw [hstrings, hzsets]
      exact h
    · exact h
  | replaceSortedSet key members =>
    show (c.invalidateRanges key).NoClosures
    rw [invalidateRanges_eq h]
    exact h
  | zrevrangeWithScores key start stop =>
    show (c.zrevrangeWithScores m key start stop reply).1.NoClosures
    unfold zrevrangeWithScores
    split
    · exact h
    · split
      · exact h
      · exact h
      · exact h
  | delMany keys => exact delMany_noClosures h keys
  | invalidateL1Prefix start =>
    show (c.invalidateL1Prefix start).NoClosures
    unfold invalidateL1Prefix
    rw [Moka.invalidate_eq h.1]
    exact h
  | _ => exact h

end CacheManager

/-! ## Whole runs -/

/-- In every state of a run: no invalidation closures, and every entry has been put by a call
    of the run. -/
structure Recorded (s : History F) : Prop where
  noClosures : s.manager.NoClosures
  put_lt : ∀ slot put, s.manager.cached s.now slot = some put → put < s.log.length

section Runs

variable {ttlMs maxCapacity : ℕ} {s s' : History F} {slot : Slot} {put : ℕ}

/-- What L1 serves after an event was served before it, or has been put by it. -/
theorem step_cached {e : Event F} (h : step s e = some s')
    (hput : s'.manager.cached s'.now slot = some put) :
    s.manager.cached s.now slot = some put ∨ put = s.log.length ∧ s'.log.length = put + 1 := by
  cases e with
  | call c reply =>
    cases h
    rcases CacheManager.perform_grows (m := ⟨s.now, s.log.length⟩) c reply slot put hput with h | h
    · exact Or.inl h
    · refine Or.inr ⟨h, ?_⟩
      rw [List.length_append, List.length_singleton, h]
  | wait millis =>
    cases h
    left
    cases slot with
    | text key =>
      obtain ⟨e, he, hput⟩ := Option.map_eq_some_iff.mp hput
      exact Option.map_eq_some_iff.mpr ⟨e, Moka.get_earlier (Nat.le_add_right _ _) he, hput⟩
    | range key start stop =>
      obtain ⟨e, he, hput⟩ := Option.map_eq_some_iff.mp hput
      exact Option.map_eq_some_iff.mpr ⟨e, Moka.get_earlier (Nat.le_add_right _ _) he, hput⟩
  | evictString key =>
    cases h
    rcases CacheManager.removeString_grows (m := ⟨s.now, put + 1⟩) key slot put hput with h | h
    · exact Or.inl h
    · exact absurd h (Nat.lt_succ_self put).ne
  | evictZset key =>
    cases h
    left
    cases slot with
    | text key => exact hput
    | range key start stop =>
      obtain ⟨e, he, hput⟩ := Option.map_eq_some_iff.mp hput
      exact Option.map_eq_some_iff.mpr ⟨e, Moka.get_remove he, hput⟩

theorem step_log {e : Event F} (h : step s e = some s') :
    s'.log = s.log ∨ ∃ c reply, e = .call c reply ∧
      s'.log = s.log ++ [(c, (s.manager.perform ⟨s.now, s.log.length⟩ c reply).2)] := by
  cases e with
  | call c reply =>
    cases h
    exact Or.inr ⟨c, reply, rfl, rfl⟩
  | _ =>
    cases h
    exact Or.inl rfl

theorem Recorded.step {e : Event F} (hs : Recorded s) (h : step s e = some s') : Recorded s' := by
  have hlength : s.log.length ≤ s'.log.length := by
    rcases step_log h with hlog | ⟨c, reply, -, hlog⟩
    · rw [hlog]
    · rw [hlog, List.length_append]
      omega
  refine ⟨?_, fun slot put hput => ?_⟩
  · cases e with
    | call c reply =>
      cases h
      exact CacheManager.perform_noClosures hs.noClosures c reply
    | _ =>
      cases h
      exact hs.noClosures
  · rcases step_cached h hput with hput | ⟨-, hput⟩
    · have hlt := hs.put_lt slot put hput
      omega
    · omega

theorem recorded_of_reachable (h : (sequential F ttlMs maxCapacity).Reachable s) : Recorded s := by
  refine h.invariant (fun s hs => ?_) fun s e s' hs hstep => hs.step hstep
  cases hs
  refine ⟨CacheManager.new_noClosures ttlMs maxCapacity, fun slot put hput => ?_⟩
  cases slot with
  | text key => cases hput
  | range key start stop => cases hput

/-- After call number `n`, the call `c`: what L1 serves of the slots that `c` invalidates has
    been put there since, and the answers since then show only such. -/
structure Renewed (n : ℕ) (c : Call F) (s : History F) : Prop where
  length : n < s.log.length
  cached : ∀ slot put, c.Invalidates slot → s.manager.cached s.now slot = some put → n ≤ put
  fresh : Fresh n c s.log

theorem Renewed.step {n : ℕ} {c : Call F} {e : Event F} (hs : Renewed n c s)
    (h : step s e = some s') : Renewed n c s' := by
  have hcached : ∀ slot put, c.Invalidates slot → s'.manager.cached s'.now slot = some put →
      n ≤ put := by
    intro slot put hslot hput
    rcases step_cached h hput with hput | ⟨rfl, -⟩
    · exact hs.cached slot put hslot hput
    · exact hs.length.le
  rcases step_log h with hlog | ⟨c', reply, -, hlog⟩
  · exact ⟨by rw [hlog]; exact hs.length, hcached, by rw [hlog]; exact hs.fresh⟩
  · refine ⟨?_, hcached, fun m r slot put hm hr hslot hshows => ?_⟩
    · have hlength := hs.length
      rw [hlog, List.length_append]
      omega
    · rw [hlog] at hr
      by_cases hold : m < s.log.length
      · rw [List.getElem?_append_left hold] at hr
        exact hs.fresh m r slot put hm hr hslot hshows
      · rw [List.getElem?_append_right (by omega)] at hr
        have hlast := List.mem_singleton.mp (List.mem_of_getElem? hr)
        rw [hlast] at hshows
        exact hs.cached slot put hslot (CacheManager.perform_shows hshows)

/-- After a call no later one returns what was in L1 before it and what it invalidates, if and
    only if there was nothing of that kind in L1 when it was made. -/
theorem freshAfter_iff (ttlMs maxCapacity : ℕ) {s s' : History F}
    (hs : (sequential F ttlMs maxCapacity).Reachable s) (c : Call F) (reply : Reply F)
    (hstep : (sequential F ttlMs maxCapacity).step s (.call c reply) = some s') :
    (∀ es t, (sequential F ttlMs maxCapacity).run s' es = some t → Fresh s.log.length c t.log) ↔
      ∀ slot, c.Invalidates slot → s.manager.cached s.now slot = none := by
  have hcall : LocalCache.step s (.call c reply) = some s' := hstep
  have hrecorded := recorded_of_reachable hs
  have hlength : s'.log.length = s.log.length + 1 := by
    cases hstep
    rw [List.length_append, List.length_singleton]
  constructor
  · intro hfresh slot hslot
    by_contra hcached
    obtain ⟨put, hput⟩ := Option.ne_none_iff_exists'.mp hcached
    -- the slot is still served after the call, and the next call reads it
    have hstill : s'.manager.cached s'.now slot = some put := by
      cases hstep
      exact (CacheManager.invalidates_nothing hrecorded.noClosures reply hslot s.now).trans hput
    have hshows := CacheManager.shows_read (m := ⟨s'.now, s'.log.length⟩) .error hstill
    have hread := hfresh [.call (CacheManager.read slot) .error] _ rfl (s.log.length + 1) _ slot put
      (Nat.lt_succ_self _) (by
        rw [← hlength]
        exact List.getElem?_concat_length) hslot hshows
    have hlt := hrecorded.put_lt slot put hput
    omega
  · intro hnone es t hrun
    have hrenewed : Renewed s.log.length c s' := by
      refine ⟨by omega, fun slot put hslot hput => ?_, fun m r slot put hm hr => ?_⟩
      · rcases step_cached hcall hput with hput | ⟨rfl, -⟩
        · rw [hnone slot hslot] at hput
          cases hput
        · exact le_refl _
      · have hlt := (List.getElem?_eq_some_iff.mp hr).1
        omega
    exact (Machine.run_keeps (fun _ _ _ h hstep => h.step hstep) es s' t hrenewed hrun).fresh

end Runs

/-! ## The leaderboard -/

/-- The key of the unfiltered leaderboard of a window (leaderboard_refresh.rs:108). -/
def leaderboardKey (window : TimeWindow) : String := "lb:" ++ window.asStr

/-- The read of `get_leaderboard` for the first `limit` items (like_queries.rs:317–321). -/
def leaderboardRead (window : TimeWindow) (limit : ℤ) : Call F :=
  .zrevrangeWithScores (leaderboardKey window) 0 (limit - 1)

/-- A refresh of the last day's leaderboard. -/
def refreshDay : Call ℤ := .replaceSortedSet (leaderboardKey .day) [("post:8", 5)]

/-- `freshAfter_iff` for a refresh of a leaderboard that nobody has read. -/
theorem freshAfter_iff_refreshDay : ∃ t,
    (sequential ℤ 200 10000).run ⟨.new 200 10000, 0, []⟩
      [.call refreshDay .done, .call (leaderboardRead .day 10) (.pairs [("post:8", 5)])] = some t ∧
    Fresh 0 refreshDay t.log := by
  have hnone : ∀ slot, refreshDay.Invalidates slot →
      (CacheManager.new 200 10000 : CacheManager ℤ).cached 0 slot = none := by
    intro slot _
    cases slot with
    | text key => rfl
    | range key start stop => rfl
  exact ⟨_, rfl, (freshAfter_iff 200 10000 (Machine.Reachable.initial rfl) refreshDay .done rfl).mpr
    hnone [.call (leaderboardRead .day 10) (.pairs [("post:8", 5)])] _ rfl⟩

/-- A read of the ten first, the refresh 50 ms later, and the read again. -/
def refreshedBoard : List (Event ℤ) :=
  [.call (leaderboardRead .day 10) (.pairs [("post:7", 1)]), .wait 50, .call refreshDay .done,
    .call (leaderboardRead .day 10) (.pairs [("post:8", 5)])]

/-- The refresh is not visible: the second read returns what the first one had put into L1. -/
theorem refresh_invisible : ∃ t,
    (sequential ℤ 200 10000).run ⟨.new 200 10000, 0, []⟩ refreshedBoard = some t ∧
    t.log[2]? = some (leaderboardRead .day 10, .pairs (.l1 [("post:7", 1)] 0)) ∧
    ¬ Fresh 1 refreshDay t.log := by
  have hlog : ((sequential ℤ 200 10000).run ⟨.new 200 10000, 0, []⟩ refreshedBoard).map (fun t =>
      t.log[2]?) = some (some (leaderboardRead .day 10, .pairs (.l1 [("post:7", 1)] 0))) := by
    decide +kernel
  obtain ⟨t, ht, hread⟩ := Option.map_eq_some_iff.mp hlog
  refine ⟨t, ht, hread, fun hfresh => ?_⟩
  have hput := hfresh 2 _ (.range (leaderboardKey .day) 0 9) 0 (by omega) hread rfl
    ⟨rfl, rfl, rfl, _, rfl⟩
  omega

end SocialApi.LocalCache
