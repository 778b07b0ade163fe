import SocialApi.Cache

/-!
# The keys a method touches

* `Op.Within`: an operation whose keys are all in a set; for each method of the cache, the sets
  in which its operations stay.
* `lookup_of_evict`: an entry that is there after an eviction was there before.
* `handle_sameOn`, `handle_frame`: two caches that hold the same under the keys of a set do so
  after an operation on both that stays in the set, and after one on either that stays out of it.
-/

namespace SocialApi.Cache

open SocialApi.Concurrent

/-- The operation looks at the key, or changes what is there. -/
def Op.Touches : Op → CacheKey → Prop
  | l1Get key', key => key = key'
  | l1Insert key' _, key => key = key'
  | l1Remove key', key => key = key'
  | l1InvalidatePrefix userId, key => OfUser userId key
  | redisGet key', key => key = key'
  | redisMget keys, key => key ∈ keys
  | redisSetEx key' _ _, key => key = key'
  | redisDel key', key => key = key'

/-- All the keys are in `P`. -/
def Op.Within (P : CacheKey → Prop) (o : Op) : Prop := ∀ key, o.Touches key → P key

/-- If the operation stores, then under a key in `P`. -/
def Op.StoresIn (P : CacheKey → Prop) (o : Op) : Prop := ∀ e, o.store = some e → P e.2.1

theorem Op.Within.mono {P P' : CacheKey → Prop} {o : Op} (h : o.Within P)
    (hP : ∀ key, P key → P' key) : o.Within P' :=
  fun key hkey => hP key (h key hkey)

theorem Op.Within.storesIn {P : CacheKey → Prop} {o : Op} (h : o.Within P) : o.StoresIn P := by
  intro e he
  apply h
  unfold Op.store at he
  split at he
  · rw [← Option.some.inj he]
    rfl
  · rw [← Option.some.inj he]
    rfl
  · simp at he

theorem Op.within_of_eq {P : CacheKey → Prop} {o : Op} {key : CacheKey}
    (h : ∀ key', o.Touches key' → key' = key) (hkey : P key) : o.Within P := by
  intro key' htouches
  rw [h key' htouches]
  exact hkey

/-- An entry that is there after another one has left. -/
theorem lookup_of_evict {s : CacheState} {layer layer' : Layer} {key key' : CacheKey} {v : String}
    (h : (evict s layer' key').lookup layer key = some v) : s.lookup layer key = some v := by
  by_cases hcell : layer = layer' ∧ key = key'
  · obtain ⟨rfl, rfl⟩ := hcell
    simp [evict] at h
  · rw [evict, CacheState.lookup_put_ne] at h
    · exact h
    · by_contra hn
      push Not at hn
      exact hcell hn

/-! ## Caches that hold the same under some keys -/

/-- The two caches hold the same under the keys of `P`. -/
def SameOn (P : CacheKey → Prop) (s s' : CacheState) : Prop :=
  ∀ layer key, P key → s.lookup layer key = s'.lookup layer key

section SameOn

variable {P : CacheKey → Prop} {s s' t : CacheState}

theorem SameOn.put (h : SameOn P s s') (layer : Layer) (key : CacheKey) (v : Option String) :
    SameOn P (s.put layer key v) (s'.put layer key v) := by
  intro layer' key' hkey'
  by_cases hcell : layer' = layer ∧ key' = key
  · obtain ⟨rfl, rfl⟩ := hcell
    simp
  · have hne : layer' ≠ layer ∨ key' ≠ key := by
      by_contra hn
      push Not at hn
      exact hcell hn
    rw [s.lookup_put_ne v hne, s'.lookup_put_ne v hne]
    exact h layer' key' hkey'

theorem SameOn.map_redis (h : SameOn P s s') {keys : List CacheKey} (hkeys : ∀ key ∈ keys, P key) :
    keys.map s.redis = keys.map s'.redis :=
  List.map_congr_left fun key hkey => h .redis key (hkeys key hkey)

/-- An operation within `P` goes the same way on both. -/
theorem handle_sameOn {o : Op} {x : Choice} {r : o.Ans} (ho : o.Within P) (h : SameOn P s s')
    (hs : handle s o x = some (t, r)) :
    ∃ t', handle s' o x = some (t', r) ∧ SameOn P t t' := by
  unfold handle at hs
  split at hs <;> cases hs
  · rename_i key
    refine ⟨s', ?_, h⟩
    have hkey : s.l1 key = s'.l1 key := h .l1 key (ho key rfl)
    rw [hkey]
    rfl
  · exact ⟨_, rfl, h.put _ _ _⟩
  · exact ⟨_, rfl, h.put _ _ _⟩
  · rename_i userId keys
    refine ⟨_, rfl, ?_⟩
    intro layer key hkey
    cases layer with
    | redis => exact h .redis key hkey
    | l1 =>
      have hl1 : s.l1 key = s'.l1 key := h .l1 key hkey
      show (if OfUser userId key ∧ key ∈ keys then none else s.l1 key) =
        if OfUser userId key ∧ key ∈ keys then none else s'.l1 key
      rw [hl1]
  · rename_i key
    refine ⟨s', ?_, h⟩
    have hkey : s.redis key = s'.redis key := h .redis key (ho key rfl)
    rw [hkey]
    rfl
  · exact ⟨s', rfl, h⟩
  · refine ⟨s', ?_, h⟩
    rw [h.map_redis ho]
    rfl
  · exact ⟨s', rfl, h⟩
  · exact ⟨_, rfl, h.put _ _ _⟩
  · exact ⟨s', rfl, h⟩
  · exact ⟨_, rfl, h.put _ _ _⟩
  · exact ⟨s', rfl, h⟩

/-- An operation leaves the other entries alone. -/
theorem lookup_of_not_touches {o : Op} {x : Choice} {r : o.Ans} {layer : Layer} {key : CacheKey}
    (ho : ¬ o.Touches key) (hs : handle s o x = some (t, r)) :
    t.lookup layer key = s.lookup layer key := by
  have hput : ∀ layer' key' v, key ≠ key' →
      (s.put layer' key' v).lookup layer key = s.lookup layer key :=
    fun layer' key' v hne => s.lookup_put_ne v (Or.inr hne)
  unfold handle at hs
  split at hs <;> cases hs
  all_goals first
    | rfl
    | exact hput _ _ _ ho
    | skip
  rename_i userId keys
  cases layer with
  | redis => rfl
  | l1 =>
    show (if OfUser userId key ∧ key ∈ keys then none else s.l1 key) = s.l1 key
    rw [if_neg]
    rintro ⟨hof, -⟩
    exact ho hof

/-- An operation that stays out of `P`. -/
theorem handle_frame {o : Op} {x : Choice} {r : o.Ans} (ho : o.Within fun key => ¬ P key)
    (hs : handle s o x = some (t, r)) (h : SameOn P s s') : SameOn P t s' := by
  intro layer key hkey
  rw [lookup_of_not_touches (fun htouches => ho key htouches hkey) hs]
  exact h layer key hkey

end SameOn

section Methods

variable {P : CacheKey → Prop}

theorem get_within {key : CacheKey} (hkey : P key) : (get key).All (Op.Within P) := by
  refine ⟨Op.within_of_eq (fun _ => id) hkey, fun l1 => ?_⟩
  cases l1 with
  | some val => trivial
  | none =>
    refine ⟨Op.within_of_eq (fun _ => id) hkey, fun redis => ?_⟩
    cases redis with
    | none => trivial
    | some val => exact ⟨Op.within_of_eq (fun _ => id) hkey, fun _ => trivial⟩

theorem set_within {key : CacheKey} (hkey : P key) (value : String) (ttlSecs : ℕ) :
    (set key value ttlSecs).All (Op.Within P) :=
  ⟨Op.within_of_eq (fun _ => id) hkey, fun _ =>
    ⟨Op.within_of_eq (fun _ => id) hkey, fun _ => trivial⟩⟩

/-- The operations of `set_many` store the entries. -/
theorem setMany_all {S : Op → Prop} {entries : List (CacheKey × String × ℕ)}
    (h : ∀ e ∈ entries, S (.l1Insert e.1 e.2.1) ∧ S (.redisSetEx e.1 e.2.1 e.2.2)) :
    (setMany entries).All S := by
  have hl1 : (setManyL1 entries).All S := by
    induction entries with
    | nil => trivial
    | cons entry entries ih =>
      exact ⟨(h entry List.mem_cons_self).1, fun _ => ih fun e he => h e (List.mem_cons_of_mem _ he)⟩
  have hredis : (setManyRedis entries).All S := by
    clear hl1
    induction entries with
    | nil => trivial
    | cons entry entries ih =>
      exact ⟨(h entry List.mem_cons_self).2, fun _ => ih fun e he => h e (List.mem_cons_of_mem _ he)⟩
  exact hl1.bind fun _ => hredis

theorem setMany_within {entries : List (CacheKey × String × ℕ)} (h : ∀ e ∈ entries, P e.1) :
    (setMany entries).All (Op.Within P) :=
  setMany_all fun e he =>
    ⟨Op.within_of_eq (fun _ => id) (h e he), Op.within_of_eq (fun _ => id) (h e he)⟩

/-- The keys that are asked of Redis are keys of the request. -/
theorem mem_of_redisNeeded {keys : List CacheKey} {results : List (Option String)}
    {needed : ℕ × CacheKey} (h : needed ∈ redisNeeded keys results) : needed.2 ∈ keys := by
  obtain ⟨⟨⟨key, result⟩, n⟩, hmem, rfl⟩ := List.mem_map.mp h
  have hzip := List.fst_mem_of_mem_zipIdx (List.mem_filter.mp hmem).1
  exact (List.of_mem_zip hzip).1

/-- Phase 1 of `mget` looks into L1. -/
theorem mgetL1_all {S : Op → Prop} {keys : List CacheKey} (h : ∀ key ∈ keys, S (.l1Get key)) :
    (mgetL1 keys).All S := by
  induction keys with
  | nil => trivial
  | cons key keys ih =>
    refine ⟨h key List.mem_cons_self, fun val => ?_⟩
    exact (ih fun key hkey => h key (List.mem_cons_of_mem _ hkey)).bind fun _ => trivial

/-- What Redis has answered is stored in L1. -/
theorem mgetFill_all {S : Op → Prop} (vals : List ((ℕ × CacheKey) × Option String))
    (results : List (Option String))
    (h : ∀ e ∈ vals, ∀ v, e.2 = some v → S (.l1Insert e.1.2 v)) : (mgetFill vals results).All S := by
  induction vals generalizing results with
  | nil => trivial
  | cons val vals ih =>
    obtain ⟨⟨resultIdx, key⟩, val⟩ := val
    have hrest := fun results => ih results fun e he => h e (List.mem_cons_of_mem _ he)
    cases val with
    | none => exact hrest _
    | some v => exact ⟨h _ List.mem_cons_self v rfl, fun _ => hrest _⟩

theorem mget_within {keys : List CacheKey} (h : ∀ key ∈ keys, P key) :
    (mget keys).All (Op.Within P) := by
  have hl1 : (mgetL1 keys).All (Op.Within P) :=
    mgetL1_all fun key hkey => Op.within_of_eq (fun _ => id) (h key hkey)
  refine hl1.bind fun results => ?_
  dsimp only
  split_ifs with hnone
  · trivial
  · refine ⟨fun key hkey => ?_, fun vals => ?_⟩
    · obtain ⟨needed, hneeded, rfl⟩ := List.mem_map.mp hkey
      exact h _ (mem_of_redisNeeded hneeded)
    · cases vals with
      | none => trivial
      | some vals =>
        refine mgetFill_all _ _ fun e he v _ => Op.within_of_eq (fun _ => id) (h _ ?_)
        exact mem_of_redisNeeded (List.of_mem_zip he).1

theorem delMany_within {keys : List CacheKey} (h : ∀ key ∈ keys, P key) :
    (delMany keys).All (Op.Within P) := by
  have hl1 : (delManyL1 keys).All (Op.Within P) := by
    induction keys with
    | nil => trivial
    | cons key keys ih =>
      refine ⟨Op.within_of_eq (fun _ => id) (h key List.mem_cons_self), fun _ => ?_⟩
      exact ih fun key hkey => h key (List.mem_cons_of_mem _ hkey)
  have hredis : (delManyRedis keys).All (Op.Within P) := by
    clear hl1
    induction keys with
    | nil => trivial
    | cons key keys ih =>
      refine ⟨Op.within_of_eq (fun _ => id) (h key List.mem_cons_self), fun _ => ?_⟩
      exact ih fun key hkey => h key (List.mem_cons_of_mem _ hkey)
  exact hl1.bind fun _ => hredis

theorem invalidateL1Prefix_within {userId : Uuid} (h : ∀ contentType, P (.ul userId contentType)) :
    (invalidateL1Prefix userId).All (Op.Within P) := by
  refine ⟨fun key hkey => ?_, fun _ => trivial⟩
  cases key with
  | ul u contentType =>
    obtain rfl : u = userId := hkey
    exact h contentType
  | _ => exact hkey.elim

end Methods

end SocialApi.Cache
