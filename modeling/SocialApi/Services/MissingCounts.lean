import SocialApi.Services.LikeCountCache

/-!
# The bookkeeping of `batch_counts`

A batch keeps three structures in step: the results, one for each requested item and in
request order; `missing_map`, which says for each key without a cached count at which
positions it was requested; and what became of each of these keys in the election
(`to_fetch`, `leader_keys`, `follower_rxs`).

* `Filled`: each result carries a known count of its item or waits for a key of `todo`.
  `splitCached_filled` establishes it and `Filled.setCounts` crosses a key off.
* `Tracked`: `missing_map` points at items with the right key, so that no lookup in it
  fails (`Tracked.firstItem`).
* `Elected`: the election sorts the keys it has visited into leaders, each with its item
  in `to_fetch`, and followers.
-/

namespace SocialApi.Services

open SocialApi.Concurrent SocialApi.Postgres SocialApi.PendingFetches

theorem countCacheKey_injective : Function.Injective countCacheKey := by
  rintro ⟨ct, cid⟩ ⟨ct', cid'⟩ h
  cases h
  rfl

/-! ## `missing_map` -/

namespace MissingMap

@[simp] theorem keys_cons (e : CacheKey × List ℕ) (rest : MissingMap) :
    keys (e :: rest) = e.1 :: rest.keys := rfl

theorem keys_push (missing : MissingMap) (key : CacheKey) (index : ℕ) :
    (missing.push key index).keys =
      if key ∈ missing.keys then missing.keys else missing.keys ++ [key] := by
  induction missing with
  | nil => rfl
  | cons e rest ih =>
    obtain ⟨k, positions⟩ := e
    unfold push
    by_cases hk : k = key
    · subst hk; simp
    · rw [if_neg hk, keys_cons, ih, keys_cons]
      by_cases hmem : key ∈ keys rest
      · simp [hmem]
      · simp [hmem, Ne.symm hk]

theorem positions_push (missing : MissingMap) (key key' : CacheKey) (index : ℕ) :
    (missing.push key index).positions key' =
      missing.positions key' ++ if key' = key then [index] else [] := by
  induction missing with
  | nil =>
    by_cases hk : key' = key
    · subst hk; simp [push, positions]
    · simp [push, positions, hk, Ne.symm hk]
  | cons e rest ih =>
    obtain ⟨k, ps⟩ := e
    simp only [positions] at ih
    by_cases hk : k = key
    · subst hk
      by_cases hk' : key' = k
      · subst hk'; simp [push, positions]
      · simp [push, positions, hk', Ne.symm hk']
    · by_cases hk' : k = key'
      · subst hk'; simp [push, positions, hk]
      · simp only [push, if_neg hk, positions, List.find?_cons, hk', decide_false]
        exact ih

end MissingMap

/-- `missing_map` after the items `done`: each of its keys once, with the positions of items
    that have this key. -/
structure Tracked (done : List Item) (missing : MissingMap) : Prop where
  nodup : missing.keys.Nodup
  nonempty : ∀ key ∈ missing.keys, missing.positions key ≠ []
  item : ∀ key, ∀ pos ∈ missing.positions key,
    ∃ item, done[pos]? = some item ∧ countCacheKey item = key

theorem tracked_nil : Tracked [] [] :=
  ⟨List.nodup_nil, nofun, nofun⟩

theorem getElem?_append_some {α : Type} {as : List α} {i : ℕ} {a : α} (b : α)
    (h : as[i]? = some a) : (as ++ [b])[i]? = some a := by
  rw [List.getElem?_append_left (List.getElem?_eq_some_iff.mp h).1, h]

variable {done items : List Item} {missing : MissingMap}

theorem Tracked.hit (h : Tracked done missing) (item : Item) : Tracked (done ++ [item]) missing :=
  ⟨h.nodup, h.nonempty, fun key pos hpos => by
    obtain ⟨it, hit, hkey⟩ := h.item key pos hpos
    exact ⟨it, getElem?_append_some item hit, hkey⟩⟩

theorem Tracked.miss (h : Tracked done missing) (item : Item) :
    Tracked (done ++ [item]) (missing.push (countCacheKey item) done.length) := by
  refine ⟨?_, fun key hkey => ?_, fun key pos hpos => ?_⟩
  · rw [MissingMap.keys_push]
    split_ifs with hmem
    · exact h.nodup
    · exact List.nodup_append.mpr ⟨h.nodup, List.nodup_singleton _, fun a ha b hb => by
        cases List.mem_singleton.mp hb
        exact fun he => hmem (he ▸ ha)⟩
  · rw [MissingMap.positions_push]
    by_cases hk : key = countCacheKey item
    · simp [hk]
    · rw [if_neg hk, List.append_nil]
      refine h.nonempty key ?_
      rw [MissingMap.keys_push] at hkey
      split_ifs at hkey with hmem
      · exact hkey
      · exact (List.mem_append.mp hkey).resolve_right fun he => hk (List.mem_singleton.mp he)
  · rw [MissingMap.positions_push, List.mem_append] at hpos
    rcases hpos with hpos | hpos
    · exact (h.hit item).item key pos hpos
    · split_ifs at hpos with hk
      · cases List.mem_singleton.mp hpos
        exact ⟨item, by simp, hk.symm⟩
      · cases hpos

/-- A missing key has a first position, and an item with this key is there. -/
theorem Tracked.firstItem (h : Tracked items missing) {key : CacheKey} (hkey : key ∈ missing.keys) :
    ∃ item, firstItem items missing key = some item ∧ countCacheKey item = key := by
  unfold SocialApi.Services.firstItem
  cases hp : missing.positions key with
  | nil => exact absurd hp (h.nonempty key hkey)
  | cons pos rest =>
    obtain ⟨item, hitem, hk⟩ := h.item key pos (by rw [hp]; exact List.mem_cons_self)
    exact ⟨item, by rw [List.head?_cons, Option.bind_some, hitem], hk⟩

/-! ## The results -/

theorem getElem?_setCounts (positions : List ℕ) (count : I64) (results : List BatchCountResult)
    (i : ℕ) :
    (setCounts results positions count)[i]? =
      (results[i]?).map fun r => if i ∈ positions then { r with count := count } else r := by
  unfold setCounts
  induction positions generalizing results with
  | nil => simp
  | cons pos rest ih =>
    rw [List.foldl_cons, ih, List.getElem?_modify]
    cases results[i]? with
    | none => simp
    | some r =>
      by_cases hi : pos = i
      · subst hi; simp
      · have hi' : i ≠ pos := fun he => hi he.symm
        simp [hi, hi']

theorem length_setCounts (positions : List ℕ) (count : I64) (results : List BatchCountResult) :
    (setCounts results positions count).length = results.length := by
  unfold setCounts
  induction positions generalizing results with
  | nil => rfl
  | cons pos rest ih => rw [List.foldl_cons, ih, List.length_modify]

/-- The results for the items `done`: each names its item and has a count known for the item, or
    is a placeholder at a position of a key of `todo`. -/
def Filled (known : Item → I64 → Prop) (done : List Item) (missing : MissingMap)
    (todo : List CacheKey) (results : List BatchCountResult) : Prop :=
  results.length = done.length ∧ ∀ (i : ℕ) (item : Item), done[i]? = some item →
    ∃ r, results[i]? = some r ∧ r.contentType = item.1 ∧ r.contentId = item.2 ∧
      (known item r.count ∨
        countCacheKey item ∈ todo ∧ i ∈ missing.positions (countCacheKey item))

variable {known : Item → I64 → Prop} {todo : List CacheKey} {results : List BatchCountResult}

theorem Filled.mono {known' : Item → I64 → Prop} {todo' : List CacheKey}
    (h : Filled known done missing todo results) (hknown : ∀ item c, known item c → known' item c)
    (hsub : ∀ key ∈ todo, key ∈ todo') : Filled known' done missing todo' results := by
  refine ⟨h.1, fun i item hi => ?_⟩
  obtain ⟨r, hr, hct, hcid, hcount⟩ := h.2 i item hi
  exact ⟨r, hr, hct, hcid, hcount.imp (hknown item _) fun hw => ⟨hsub _ hw.1, hw.2⟩⟩

/-- One more item: its result is appended. -/
theorem Filled.snoc {missing' : MissingMap} {item : Item} {r : BatchCountResult}
    (h : Filled known done missing missing.keys results)
    (hkeys : ∀ key ∈ missing.keys, key ∈ missing'.keys)
    (hpos : ∀ key, ∀ pos ∈ missing.positions key, pos ∈ missing'.positions key)
    (hct : r.contentType = item.1) (hcid : r.contentId = item.2)
    (hr : known item r.count ∨ countCacheKey item ∈ missing'.keys ∧
      done.length ∈ missing'.positions (countCacheKey item)) :
    Filled known (done ++ [item]) missing' missing'.keys (results ++ [r]) := by
  refine ⟨by rw [List.length_append, List.length_append, h.1]; rfl, fun i it hi => ?_⟩
  rcases lt_trichotomy i done.length with hlt | rfl | hgt
  · rw [List.getElem?_append_left hlt] at hi
    obtain ⟨r', hr', hct', hcid', hcount⟩ := h.2 i it hi
    refine ⟨r', by rw [List.getElem?_append_left (h.1 ▸ hlt), hr'], hct', hcid', ?_⟩
    exact hcount.imp_right fun hw => ⟨hkeys _ hw.1, hpos _ _ hw.2⟩
  · rw [List.getElem?_append_right (le_refl _), Nat.sub_self] at hi
    cases hi
    exact ⟨r, by rw [← h.1]; simp, hct, hcid, hr⟩
  · rw [List.getElem?_eq_none (by rw [List.length_append]; simp; omega)] at hi
    cases hi

/-- The loop keeps `missing_map` pointing at the items. -/
theorem splitCached_tracked_append {cached : List (Option String)} (rest : List Item)
    (h : Tracked done missing) :
    Tracked (done ++ rest) (splitCached cached done.length rest results missing).2 := by
  induction rest generalizing done results missing with
  | nil => simpa [splitCached] using h
  | cons item rest ih =>
    have hlen : done.length + 1 = (done ++ [item]).length := by simp
    rw [show done ++ item :: rest = (done ++ [item]) ++ rest by simp]
    unfold splitCached
    cases (cached[done.length]?.join).bind I64.parse with
    | some count => simp only [hlen]; exact ih (h.hit item)
    | none => simp only [hlen]; exact ih (h.miss item)

theorem splitCached_tracked (cached : List (Option String)) (items : List Item) :
    Tracked items (splitCached cached 0 items [] []).2 :=
  splitCached_tracked_append items tracked_nil

/-- A hit is a result; a miss is a placeholder that `missing_map` knows of. -/
theorem splitCached_filled_append {cached : List (Option String)} (rest : List Item)
    (hcached : ∀ (i : ℕ) (item : Item), (done ++ rest)[i]? = some item → ∀ count,
      (cached[i]?.join).bind I64.parse = some count → known item count)
    (h : Filled known done missing missing.keys results) :
    Filled known (done ++ rest) (splitCached cached done.length rest results missing).2
      (splitCached cached done.length rest results missing).2.keys
      (splitCached cached done.length rest results missing).1 := by
  induction rest generalizing done results missing with
  | nil => simpa [splitCached] using h
  | cons item rest ih =>
    have hlen : done.length + 1 = (done ++ [item]).length := by simp
    rw [show done ++ item :: rest = (done ++ [item]) ++ rest by simp] at hcached ⊢
    unfold splitCached
    cases hhit : (cached[done.length]?.join).bind I64.parse with
    | some count =>
      simp only [hlen]
      refine ih hcached (h.snoc (fun _ h => h) (fun _ _ h => h) rfl rfl (Or.inl ?_))
      exact hcached done.length item (by simp) count hhit
    | none =>
      simp only [hlen]
      have hpushed : countCacheKey item ∈ (missing.push (countCacheKey item) done.length).keys := by
        rw [MissingMap.keys_push]
        split_ifs with hmem
        · exact hmem
        · simp
      refine ih hcached (h.snoc (fun key hkey => ?_) (fun key pos hpos => ?_) rfl rfl
        (Or.inr ⟨hpushed, ?_⟩))
      · rw [MissingMap.keys_push]
        split_ifs
        · exact hkey
        · exact List.mem_append_left _ hkey
      · rw [MissingMap.positions_push]; exact List.mem_append_left _ hpos
      · rw [MissingMap.positions_push, if_pos rfl]; simp

theorem splitCached_filled {cached : List (Option String)}
    (hcached : ∀ (i : ℕ) (item : Item), items[i]? = some item → ∀ count,
      (cached[i]?.join).bind I64.parse = some count → known item count) :
    Filled known items (splitCached cached 0 items [] []).2
      (splitCached cached 0 items [] []).2.keys (splitCached cached 0 items [] []).1 := by
  have hnil : Filled known [] [] (MissingMap.keys []) [] := ⟨rfl, fun i item h => by simp at h⟩
  exact splitCached_filled_append items hcached hnil

/-- Writing a count of a key at its positions crosses the key off. -/
theorem Filled.setCounts {key : CacheKey} {item : Item} {count : I64}
    (htracked : Tracked items missing) (h : Filled known items missing (key :: todo) results)
    (hkey : countCacheKey item = key) (hcount : known item count) :
    Filled known items missing todo (setCounts results (missing.positions key) count) := by
  refine ⟨by rw [length_setCounts]; exact h.1, fun i it hi => ?_⟩
  obtain ⟨r, hr, hct, hcid, hr'⟩ := h.2 i it hi
  rw [getElem?_setCounts, hr]
  refine ⟨_, rfl, ?_⟩
  dsimp only
  by_cases hpos : i ∈ missing.positions key
  · -- a position of the key: the item there is the key's item
    obtain ⟨it', hit', hkit⟩ := htracked.item key i hpos
    rw [hi] at hit'
    cases hit'
    cases countCacheKey_injective (hkit.trans hkey.symm)
    rw [if_pos hpos]
    exact ⟨hct, hcid, Or.inl hcount⟩
  · rw [if_neg hpos]
    refine ⟨hct, hcid, hr'.imp_right fun hw => ⟨?_, hw.2⟩⟩
    refine (List.mem_cons.mp hw.1).resolve_left fun he => hpos ?_
    rw [← he]
    exact hw.2

/-- One result for each item, in order, that names the item and has a known count of it. -/
def Counted (known : Item → I64 → Prop) (items : List Item) (results : List BatchCountResult) :
    Prop :=
  List.Forall₂ (fun item r => r.contentType = item.1 ∧ r.contentId = item.2 ∧ known item r.count)
    items results

/-- With no key left every result is counted. -/
theorem Filled.counted (h : Filled known items missing [] results) :
    Counted known items results := by
  refine List.forall₂_iff_get.mpr ⟨h.1.symm, fun i hi hi' => ?_⟩
  obtain ⟨r, hr, hct, hcid, hcount⟩ := h.2 i _ (List.getElem?_eq_getElem hi)
  rw [List.getElem?_eq_getElem hi'] at hr
  obtain rfl := Option.some.inj hr
  exact ⟨hct, hcid, hcount.resolve_right fun hw => by cases hw.1⟩

/-- If the known count of an item is its only one, the results are determined. -/
theorem Counted.eq_map {total : Item → I64}
    (h : Counted (fun item count => count = total item) items results) :
    results = items.map fun item => ⟨item.1, item.2, total item⟩ := by
  induction h with
  | nil => rfl
  | cons hr _ ih =>
    obtain ⟨hct, hcid, hcount⟩ := hr
    rw [List.map_cons, ← ih, ← hct, ← hcid, ← hcount]

/-! ## The rows of a batch query -/

theorem shuffle_perm {α : Type} (ks : List ℕ) (as : List α) : (shuffle ks as).Perm as := by
  induction as generalizing ks with
  | nil => cases ks <;> exact List.Perm.refl _
  | cons a as ih =>
    cases ks with
    | nil => exact List.Perm.refl _
    | cons k ks =>
      exact (List.perm_insertIdx a _ (Nat.min_le_right _ _)).trans ((ih ks).cons a)

/-- If every row has the value of its item, the map of the rows has it for every item with a
    row. -/
theorem collectRows_eq {α : Type} {f : Item → α} {rows : List (Item × α)} {item : Item}
    (hrows : ∀ row ∈ rows, row.2 = f row.1) (hitem : item ∈ rows.map Prod.fst) :
    collectRows rows item = some (f item) := by
  unfold collectRows
  cases hfind : rows.reverse.find? (fun row => row.1 = item) with
  | none =>
    obtain ⟨row, hrow, he⟩ := List.mem_map.mp hitem
    exact absurd he (by simpa using List.find?_eq_none.mp hfind row (List.mem_reverse.mpr hrow))
  | some row =>
    have he : row.1 = item := by simpa using List.find?_some hfind
    rw [Option.map_some, hrows row (List.mem_reverse.mp (List.mem_of_find?_eq_some hfind)), he]

/-! ## The election -/

/-- The election after the keys `visited`. -/
structure Elected (items : List Item) (missing : MissingMap) (visited : List CacheKey)
    (e : Election) : Prop where
  sorted : (e.leaderKeys ++ e.followerRxs.map Prod.fst).Perm visited
  fetch : e.toFetch = e.leaderKeys.filterMap (firstItem items missing)
  chan : ∀ x ∈ e.followerRxs, x.2.chan.1 = x.1

variable {visited : List CacheKey} {e : Election} {key : CacheKey}

theorem elected_nil : Elected items missing [] ⟨[], [], []⟩ := ⟨List.Perm.refl _, rfl, nofun⟩

theorem Elected.follow (h : Elected items missing visited e) {rx : Receiver}
    (hrx : rx.chan.1 = key) : Elected items missing (visited ++ [key])
      { e with followerRxs := e.followerRxs ++ [(key, rx)] } := by
  refine ⟨?_, h.fetch, fun x hx => ?_⟩
  · show (e.leaderKeys ++ (e.followerRxs ++ [(key, rx)]).map Prod.fst).Perm _
    rw [List.map_append, ← List.append_assoc]
    exact h.sorted.append_right _
  · rcases List.mem_append.mp hx with hx | hx
    · exact h.chan x hx
    · cases List.mem_singleton.mp hx; exact hrx

theorem Elected.lead (h : Elected items missing visited e) :
    Elected items missing (visited ++ [key])
      { e with toFetch := e.toFetch ++ (firstItem items missing key).toList,
               leaderKeys := e.leaderKeys ++ [key] } := by
  refine ⟨?_, ?_, h.chan⟩
  · show (e.leaderKeys ++ [key] ++ e.followerRxs.map Prod.fst).Perm _
    refine List.Perm.trans ?_ (h.sorted.append_right [key])
    rw [List.append_assoc, List.append_assoc]
    exact (List.perm_append_comm).append_left _
  · show e.toFetch ++ _ = (e.leaderKeys ++ [key]).filterMap _
    rw [List.filterMap_append, ← h.fetch]
    cases hfirst : firstItem items missing key <;> simp [hfirst]

/-- Every key that has to be fetched has its item in `to_fetch`. -/
theorem Elected.mem_toFetch (h : Elected items missing visited e) {item : Item}
    (hkey : key ∈ e.leaderKeys) (hitem : firstItem items missing key = some item) :
    item ∈ e.toFetch := by
  rw [h.fetch]
  exact List.mem_filterMap.mpr ⟨key, hkey, hitem⟩

/-- Every item of `to_fetch` is the item of a key that this batch leads. -/
theorem Elected.key_of_mem (h : Elected items missing visited e) (htracked : Tracked items missing)
    (hvisited : ∀ key ∈ visited, key ∈ missing.keys) {item : Item} (hitem : item ∈ e.toFetch) :
    countCacheKey item ∈ e.leaderKeys := by
  rw [h.fetch] at hitem
  obtain ⟨key, hkey, hfirst⟩ := List.mem_filterMap.mp hitem
  have hmem := hvisited key (h.sorted.mem_iff.mp (List.mem_append_left _ hkey))
  obtain ⟨item', hfirst', hk⟩ := htracked.firstItem hmem
  rw [hfirst] at hfirst'
  cases hfirst'
  rw [hk]
  exact hkey

/-- Without items to fetch there are no keys to lead. -/
theorem Elected.leaderKeys_nil (h : Elected items missing visited e)
    (htracked : Tracked items missing) (hvisited : ∀ key ∈ visited, key ∈ missing.keys)
    (hnil : e.toFetch = []) : e.leaderKeys = [] := by
  refine List.eq_nil_iff_forall_not_mem.mpr fun key hkey => ?_
  have hmem := hvisited key (h.sorted.mem_iff.mp (List.mem_append_left _ hkey))
  obtain ⟨item, hfirst, -⟩ := htracked.firstItem hmem
  have hin := h.mem_toFetch hkey hfirst
  rw [hnil] at hin
  cases hin

end SocialApi.Services
