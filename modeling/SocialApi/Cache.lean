import SocialApi.Keys
import SocialApi.Concurrent.Protocol

/-!
# The two-layer cache

`CacheManager` of `cache.rs`: a moka map in the process (L1) in front of Redis
(L2). Each access to one of the two maps is an atomic operation; the methods are
programs over them. A Redis operation may fail, which the methods treat as a miss
or ignore. A pipeline is its commands one after another.

Entries leave a layer when they expire or are evicted (`evict`); the TTL is part
of the `SETEX` operation. moka's `invalidate_entries_if` may remove any of the
matching entries.

* `Op.store`: the layer, key and value an operation stores; nothing else puts a
  value into a layer (`handle_lookup`).
-/

namespace SocialApi.Cache

open SocialApi.Concurrent

/-- The two maps of strings: `l1_strings` and Redis. -/
inductive Layer where
  | l1
  | redis
  deriving DecidableEq, Repr

/-- What the two layers hold. -/
structure CacheState where
  l1 : CacheKey → Option String
  redis : CacheKey → Option String

namespace CacheState

def empty : CacheState := ⟨fun _ => none, fun _ => none⟩

/-- What a layer holds under a key. -/
def lookup (s : CacheState) : Layer → CacheKey → Option String
  | .l1 => s.l1
  | .redis => s.redis

/-- One layer with `v` under `key`. -/
def put (s : CacheState) (layer : Layer) (key : CacheKey) (v : Option String) : CacheState :=
  match layer with
  | .l1 => { s with l1 := Function.update s.l1 key v }
  | .redis => { s with redis := Function.update s.redis key v }

@[simp] theorem lookup_empty (layer : Layer) (key : CacheKey) :
    empty.lookup layer key = none := by cases layer <;> rfl

@[simp] theorem lookup_put_self (s : CacheState) (layer : Layer) (key : CacheKey)
    (v : Option String) : (s.put layer key v).lookup layer key = v := by
  cases layer <;> simp [put, lookup]

theorem lookup_put_ne (s : CacheState) {layer layer' : Layer} {key key' : CacheKey}
    (v : Option String) (h : layer' ≠ layer ∨ key' ≠ key) :
    (s.put layer key v).lookup layer' key' = s.lookup layer' key' := by
  cases layer <;> cases layer' <;> simp_all [put, lookup, Function.update_of_ne]

end CacheState

/-! ## Operations -/

/-- The accesses of the methods to the two maps. -/
inductive Op where
  /-- `l1_strings.get`. -/
  | l1Get (key : CacheKey)
  /-- `l1_strings.insert`. -/
  | l1Insert (key : CacheKey) (value : String)
  /-- `l1_strings.remove`. -/
  | l1Remove (key : CacheKey)
  /-- `l1_strings.invalidate_entries_if` with the prefix `ul:{user_id}:`. -/
  | l1InvalidatePrefix (userId : Uuid)
  /-- `GET`. -/
  | redisGet (key : CacheKey)
  /-- `MGET`. -/
  | redisMget (keys : List CacheKey)
  /-- `SETEX`. -/
  | redisSetEx (key : CacheKey) (value : String) (ttlSecs : ℕ)
  /-- `DEL`. -/
  | redisDel (key : CacheKey)
  deriving DecidableEq, Repr

/-- The answers to the operations. A failed `GET` is answered like a miss; a failed `MGET`
    has no answers. -/
@[reducible] def Op.Ans : Op → Type
  | l1Get _ => Option String
  | l1Insert _ _ => Unit
  | l1Remove _ => Unit
  | l1InvalidatePrefix _ => Unit
  | redisGet _ => Option String
  | redisMget _ => Option (List (Option String))
  | redisSetEx _ _ _ => Unit
  | redisDel _ => Unit

/-- How an operation goes: a Redis command works or fails, and an invalidation removes
    those of the given keys that match. -/
inductive Choice where
  | ok
  | fail
  | removed (keys : List CacheKey)

/-- `key` starts with `ul:{user_id}:`. -/
def OfUser (userId : Uuid) : CacheKey → Prop
  | .ul u _ => u = userId
  | _ => False

instance (userId : Uuid) : DecidablePred (OfUser userId)
  | .lc _ _ => isFalse id
  | .ls _ _ _ => isFalse id
  | .ul u _ => inferInstanceAs (Decidable (u = userId))
  | .tok _ => isFalse id
  | .lbf _ _ _ => isFalse id

/-- What one operation does. -/
def handle (s : CacheState) : (o : Op) → Choice → Option (CacheState × o.Ans)
  | .l1Get key, .ok => some (s, s.l1 key)
  | .l1Insert key value, .ok => some (s.put .l1 key (some value), ())
  | .l1Remove key, .ok => some (s.put .l1 key none, ())
  | .l1InvalidatePrefix userId, .removed keys =>
    some ({ s with l1 := fun key => if OfUser userId key ∧ key ∈ keys then none else s.l1 key }, ())
  | .redisGet key, .ok => some (s, s.redis key)
  | .redisGet _, .fail => some (s, none)
  | .redisMget keys, .ok => some (s, some (keys.map s.redis))
  | .redisMget _, .fail => some (s, none)
  | .redisSetEx key value _, .ok => some (s.put .redis key (some value), ())
  | .redisSetEx _ _ _, .fail => some (s, ())
  | .redisDel key, .ok => some (s.put .redis key none, ())
  | .redisDel _, .fail => some (s, ())
  | _, _ => none

/-- An entry that expires or is evicted. -/
def evict (s : CacheState) (layer : Layer) (key : CacheKey) : CacheState := s.put layer key none

/-- The layer, key and value that an operation stores, if it stores one. -/
def Op.store : Op → Option (Layer × CacheKey × String)
  | l1Insert key value => some (.l1, key, value)
  | redisSetEx key value _ => some (.redis, key, value)
  | _ => none

/-- After an operation a layer holds under a key what it held before, or nothing, or what
    the operation stores there. -/
theorem handle_lookup {s s' : CacheState} {o : Op} {x : Choice} {r : o.Ans}
    (h : handle s o x = some (s', r)) (layer : Layer) (key : CacheKey) :
    s'.lookup layer key = s.lookup layer key ∨ s'.lookup layer key = none ∨
      ∃ v, o.store = some (layer, key, v) ∧ s'.lookup layer key = some v := by
  have hput : ∀ layer' key' v, (s.put layer' key' v).lookup layer key = s.lookup layer key ∨
      (layer' = layer ∧ key' = key ∧ (s.put layer' key' v).lookup layer key = v) := by
    intro layer' key' v
    by_cases hl : layer = layer' ∧ key = key'
    · obtain ⟨rfl, rfl⟩ := hl
      exact Or.inr ⟨rfl, rfl, by simp⟩
    · refine Or.inl (s.lookup_put_ne v ?_)
      by_contra hn
      push Not at hn
      exact hl hn
  unfold handle at h
  split at h <;> cases h
  · exact Or.inl rfl
  · rename_i key' value
    rcases hput .l1 key' (some value) with hp | ⟨rfl, rfl, hp⟩
    · exact Or.inl hp
    · exact Or.inr (Or.inr ⟨value, rfl, hp⟩)
  · rcases hput .l1 _ none with hp | ⟨-, -, hp⟩
    · exact Or.inl hp
    · exact Or.inr (Or.inl hp)
  · rename_i userId keys
    cases layer with
    | redis => exact Or.inl rfl
    | l1 =>
      show (if OfUser userId key ∧ key ∈ keys then none else s.l1 key) = _ ∨ _
      split_ifs with hk
      · exact Or.inr (Or.inl (if_pos hk))
      · exact Or.inl rfl
  · exact Or.inl rfl
  · exact Or.inl rfl
  · exact Or.inl rfl
  · exact Or.inl rfl
  · rename_i key' value ttl
    rcases hput .redis key' (some value) with hp | ⟨rfl, rfl, hp⟩
    · exact Or.inl hp
    · exact Or.inr (Or.inr ⟨value, rfl, hp⟩)
  · exact Or.inl rfl
  · rcases hput .redis _ none with hp | ⟨-, -, hp⟩
    · exact Or.inl hp
    · exact Or.inr (Or.inl hp)
  · exact Or.inl rfl

/-- An operation that stores a value really does, unless it is a Redis command that fails. -/
theorem handle_store {s s' : CacheState} {o : Op} {x : Choice} {r : o.Ans}
    (h : handle s o x = some (s', r)) {layer : Layer} {key : CacheKey} {v : String}
    (ho : o.store = some (layer, key, v)) (hx : x ≠ .fail) : s'.lookup layer key = some v := by
  cases o with
  | l1Insert key' value =>
    cases x with
    | ok => cases h; cases ho; simp
    | fail => cases h
    | removed keys => cases h
  | redisSetEx key' value ttl =>
    cases x with
    | ok => cases h; cases ho; simp
    | fail => exact absurd rfl hx
    | removed keys => cases h
  | _ => cases ho

/-- The layer, key and value that an answer shows. -/
def Op.Shows : (o : Op) → o.Ans → Layer → CacheKey → String → Prop
  | l1Get key, r, layer, key', v => layer = .l1 ∧ key' = key ∧ r = some v
  | redisGet key, r, layer, key', v => layer = .redis ∧ key' = key ∧ r = some v
  | redisMget keys, r, layer, key', v =>
    layer = .redis ∧ ∃ vals, r = some vals ∧ (key', some v) ∈ keys.zip vals
  | _, _, _, _, _ => False

theorem eq_of_mem_zip_map {α β : Type} {f : α → β} {as : List α} {p : α × β}
    (h : p ∈ as.zip (as.map f)) : p.2 = f p.1 := by
  induction as with
  | nil => cases h
  | cons a as ih =>
    rcases List.mem_cons.mp h with rfl | h
    · rfl
    · exact ih h

/-- An answer shows what the layer holds. -/
theorem handle_shows {s s' : CacheState} {o : Op} {x : Choice} {r : o.Ans}
    (h : handle s o x = some (s', r)) {layer : Layer} {key : CacheKey} {v : String}
    (hv : o.Shows r layer key v) : s.lookup layer key = some v := by
  cases o with
  | l1Get key' =>
    obtain ⟨rfl, rfl, rfl⟩ := hv
    cases x with
    | ok => exact congrArg Prod.snd (Option.some.inj h)
    | _ => cases h
  | redisGet key' =>
    obtain ⟨rfl, rfl, rfl⟩ := hv
    cases x with
    | ok => exact congrArg Prod.snd (Option.some.inj h)
    | _ => cases h
  | redisMget keys =>
    obtain ⟨rfl, vals, rfl, hmem⟩ := hv
    cases x with
    | ok =>
      have hvals : keys.map s.redis = vals :=
        Option.some.inj (congrArg Prod.snd (Option.some.inj h))
      rw [← hvals] at hmem
      exact (eq_of_mem_zip_map hmem).symm
    | _ => cases h
  | _ => exact hv.elim

/-! ## The methods -/

/-- A method of `CacheManager`. -/
abbrev CacheM (α : Type) := Prog Op Op.Ans α

/-- One operation as a method. -/
def perform (o : Op) : CacheM o.Ans := Prog.perform o

/-- `CacheManager::get` (cache.rs:79–103). -/
def get (key : CacheKey) : CacheM (Option String) := do
  match ← perform (.l1Get key) with
  | some val => return some val
  | none =>
    match ← perform (.redisGet key) with
    | some val =>
      perform (.l1Insert key val)
      return some val
    | none => return none

/-- `CacheManager::set` (cache.rs:107–129). -/
def set (key : CacheKey) (value : String) (ttlSecs : ℕ) : CacheM Unit := do
  perform (.l1Insert key value)
  perform (.redisSetEx key value ttlSecs)

/-- The L1 half of `set_many` (cache.rs:139–143). -/
def setManyL1 : List (CacheKey × String × ℕ) → CacheM Unit
  | [] => return ()
  | (key, value, _) :: entries => do
    perform (.l1Insert key value)
    setManyL1 entries

/-- The Redis half of `set_many` (cache.rs:153–165). -/
def setManyRedis : List (CacheKey × String × ℕ) → CacheM Unit
  | [] => return ()
  | (key, value, ttl) :: entries => do
    perform (.redisSetEx key value ttl)
    setManyRedis entries

/-- `CacheManager::set_many` (cache.rs:133–166). -/
def setMany (entries : List (CacheKey × String × ℕ)) : CacheM Unit := do
  setManyL1 entries
  setManyRedis entries

/-- Phase 1 of `mget` (cache.rs:227–236): the L1 value of each key. -/
def mgetL1 : List CacheKey → CacheM (List (Option String))
  | [] => return []
  | key :: keys => do
    let val ← perform (.l1Get key)
    let results ← mgetL1 keys
    return val :: results

/-- `redis_needed`: the indices and keys without an L1 value. -/
def redisNeeded (keys : List CacheKey) (results : List (Option String)) : List (ℕ × CacheKey) :=
  ((keys.zip results).zipIdx.filter fun e => e.1.2 = none).map fun e => (e.2, e.1.1)

/-- The loop over the answer of `MGET` (cache.rs:261–270). -/
def mgetFill : List ((ℕ × CacheKey) × Option String) → List (Option String) →
    CacheM (List (Option String))
  | [], results => return results
  | ((resultIdx, key), val) :: rest, results => do
    match val with
    | some v => perform (.l1Insert key v)
    | none => pure ()
    mgetFill rest (results.set resultIdx val)

/-- `CacheManager::mget` (cache.rs:219–277). -/
def mget (keys : List CacheKey) : CacheM (List (Option String)) := do
  let results ← mgetL1 keys
  let needed := redisNeeded keys results
  if needed = [] then return results
  else
    match ← perform (.redisMget (needed.map Prod.snd)) with
    | none => return results
    | some vals => mgetFill (needed.zip vals) results

/-- The L1 half of `del_many` (cache.rs:382–390). -/
def delManyL1 : List CacheKey → CacheM Unit
  | [] => return ()
  | key :: keys => do
    perform (.l1Remove key)
    delManyL1 keys

/-- The Redis half of `del_many` (cache.rs:399–405). -/
def delManyRedis : List CacheKey → CacheM Unit
  | [] => return ()
  | key :: keys => do
    perform (.redisDel key)
    delManyRedis keys

/-- `CacheManager::del_many` (cache.rs:377–406). -/
def delMany (keys : List CacheKey) : CacheM Unit := do
  delManyL1 keys
  delManyRedis keys

/-- `CacheManager::invalidate_l1_prefix` for the prefix `ul:{user_id}:` (cache.rs:411–416). -/
def invalidateL1Prefix (userId : Uuid) : CacheM Unit :=
  perform (.l1InvalidatePrefix userId)

end SocialApi.Cache
