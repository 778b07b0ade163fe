import SocialApi.Services.Sequential

/-!
# Counts that have to be fetched

A request for counts on its own (`Alone`), with any entries in the cache: those that are missing
or rejected are fetched, and nobody else is waited for.

* `registered_step`: the entries of `pending_fetches` stay channels that have been made,
  which is all that is asked of the flights here.
* `exec_getCountValue`, `exec_batchCounts`: what is answered and left behind.
-/

namespace SocialApi.Services

open SocialApi.Concurrent SocialApi.Postgres SocialApi.PendingFetches

variable {ι : Type}

/-! ## Waiting for nobody -/

/-- Every entry of `pending_fetches` is a channel that has been made for its key. -/
structure Registered (f : Flights ι) : Prop where
  keyed : Keyed f
  made : ∀ key id, f.pending key = some id → ∃ ch, f.chans id = some ch

/-- A receiver that has seen all that has been sent. -/
def Unserved (f : Flights ι) (rx : Receiver) : Prop :=
  ∃ ch, f.chans rx.chan = some ch ∧ ch.version = rx.seen

section Flights

variable {f : Flights ι} {i : ι} {key : CacheKey} {rx : Receiver}

theorem chans_modify {id id' : ChanId} {g : Channel ι → Channel ι} {ch : Channel ι}
    (h : f.chans id' = some ch) :
    (f.modify id g).chans id' = some (if id' = id then g ch else ch) := by
  show Function.update f.chans id ((f.chans id).map g) id' = _
  by_cases hid : id' = id
  · subst hid
    rw [Function.update_self, h, if_pos rfl, Option.map_some]
  · rw [Function.update_of_ne hid, h, if_neg hid]

/-- A modification of another channel, or one that sends nothing. -/
theorem Unserved.modify {id : ChanId} {g : Channel ι → Channel ι} (h : Unserved f rx)
    (hg : rx.chan = id → ∀ ch, (g ch).version = ch.version) : Unserved (f.modify id g) rx := by
  obtain ⟨ch, hch, hseen⟩ := h
  refine ⟨_, chans_modify hch, ?_⟩
  split_ifs with hid
  · rw [hg hid, hseen]
  · exact hseen

theorem Registered.modify {id : ChanId} {g : Channel ι → Channel ι} (h : Registered f) :
    Registered (f.modify id g) := by
  refine ⟨h.keyed, fun key id' hid => ?_⟩
  obtain ⟨ch, hch⟩ := h.made key id' hid
  exact ⟨_, chans_modify hch⟩

/-- Entering a key: what the call becomes, and which channels are left as they are. -/
theorem Registered.entry [DecidableEq ι] (h : Registered f) (i : ι) (key : CacheKey) (keep : Bool) :
    ∃ f' role, PendingFetches.handle f i (.entry key keep) .elapsed = some (f', role) ∧
      Registered f' ∧ (∀ rx, rx.chan.1 ≠ key → Unserved f rx → Unserved f' rx) ∧
      match role with
      | .leader tx => f.pending key = none ∧ tx.1 = key
      | .follower rx => f.pending key ≠ none ∧ rx.chan.1 = key ∧ Unserved f' rx := by
  unfold PendingFetches.handle
  dsimp only
  cases hpending : f.pending key with
  | some id =>
    obtain ⟨ch, hch⟩ := h.made key id hpending
    have hsubscribed : Unserved f ⟨id, ch.version⟩ := ⟨ch, hch, rfl⟩
    dsimp only
    rw [hch]
    exact ⟨_, _, rfl, h.modify, fun rx _ hrx => hrx.modify fun _ _ => rfl, by simp,
      h.keyed key id hpending, hsubscribed.modify fun _ _ => rfl⟩
  | none =>
    refine ⟨_, _, rfl, ⟨fun key' id hid => ?_, fun key' id hid => ?_⟩, fun rx hrx hu => ?_,
      rfl, rfl⟩
    · by_cases hkey : key' = key
      · subst hkey
        simp only [Function.update_self, Option.some.injEq] at hid
        rw [← hid]
      · simp only [Function.update_of_ne hkey] at hid
        exact h.keyed key' id hid
    · by_cases hkey : key' = key
      · subst hkey
        simp only [Function.update_self, Option.some.injEq] at hid
        exact ⟨newChannel i keep, by rw [← hid]; exact Function.update_self ..⟩
      · simp only [Function.update_of_ne hkey] at hid
        obtain ⟨ch, hch⟩ := h.made key' id hid
        refine ⟨ch, ?_⟩
        have hne : id ≠ (key, f.made key) := fun he => hkey (by rw [← h.keyed key' id hid, he])
        rw [← hch]
        exact Function.update_of_ne hne ..
    · obtain ⟨ch, hch, hseen⟩ := hu
      refine ⟨ch, ?_, hseen⟩
      rw [← hch]
      exact Function.update_of_ne (fun he => hrx (by rw [he])) ..

theorem Registered.handle [DecidableEq ι] {f' : Flights ι} {o : PendingFetches.Op}
    {x : PendingFetches.Choice}
    {r : o.Ans} (h : Registered f) (hstep : PendingFetches.handle f i o x = some (f', r)) :
    Registered f' := by
  cases o with
  | entry key keep =>
    obtain ⟨f₁, role, hentry, hregistered, -⟩ := h.entry i key keep
    have hsame : PendingFetches.handle f i (.entry key keep) x =
        PendingFetches.handle f i (.entry key keep) .elapsed := rfl
    rw [hsame, hentry] at hstep
    cases hstep
    exact hregistered
  | remove key =>
    refine ⟨h.keyed.handle hstep, fun key' id hid => ?_⟩
    unfold PendingFetches.handle at hstep
    dsimp only at hstep
    cases hpending : f.pending key with
    | none =>
      rw [hpending] at hstep
      cases hstep
      exact h.made key' id hid
    | some id' =>
      rw [hpending] at hstep
      cases hstep
      have hid : Function.update f.pending key none key' = some id := hid
      by_cases hkey : key' = key
      · subst hkey
        simp at hid
      · rw [Function.update_of_ne hkey] at hid
        exact h.modify.made key' id hid
  | changed rx =>
    unfold PendingFetches.handle at hstep
    dsimp only at hstep
    split at hstep
    · cases hstep
    · split_ifs at hstep with hseen hsenders
      · cases hstep
        exact h.modify
      · cases hstep
        exact h
      · cases x with
        | inTime => cases hstep
        | elapsed =>
          cases hstep
          exact h
  | borrow rx =>
    cases hstep
    exact h
  | _ =>
    cases hstep
    exact h.modify

theorem registered_empty : Registered (Flights.empty : Flights ι) :=
  ⟨fun _ _ h => (by cases h), fun _ _ h => (by cases h)⟩

variable [DecidableEq ι]

/-- Whatever the calls do, the entries stay channels that have been made for their keys. -/
theorem registered_step {κ α : Type} {cfg : Config} {prog : κ → Svc α} {init : World ι → Prop}
    {c c' : Configuration ι (World ι) κ SvcOp SvcOp.Ans α} {a : Act ι κ SvcChoice}
    (h : Registered c.shared.flights)
    (hstep : (servicePool cfg prog init).machine.step c a = some c') :
    Registered c'.shared.flights := by
  rcases Pool.act_cases hstep with ⟨i, k, s, -, -, hstart, rfl⟩ | ⟨i, x, k, o, f, s, r, -, -, hop, rfl⟩ |
    ⟨i, k, p, s, -, -, hdrop, rfl⟩ | ⟨x, s, -, henv, rfl⟩
  · cases hstart
    exact h
  · by_cases hflight : ∃ o', o = .flight o'
    · obtain ⟨o', rfl⟩ := hflight
      obtain ⟨y, f', -, hhandle, rfl⟩ := handle_flight hop
      exact h.handle hhandle
    · have hsame := handle_flights hop fun o' he => hflight ⟨o', he⟩
      rw [← hsame] at h
      exact h
  · cases hdrop
    refine ⟨h.keyed, fun key id hid => ?_⟩
    obtain ⟨ch, hch⟩ := h.made key id hid
    have habandoned : (abandon c.shared.flights i).chans id = some _ :=
      Option.map_eq_some_iff.mpr ⟨ch, hch, rfl⟩
    exact ⟨_, habandoned⟩
  · cases x with
    | evict layer key =>
      cases henv
      exact h
    | _ => cases henv

end Flights

/-! ## Counts -/

/-- The text the services store under a count key. -/
def countTexts (t : Tables) : CacheKey → String
  | .lc contentType contentId => (t.totalCount (contentType, contentId)).toString
  | _ => ""

/-- The count that a cache and the tables give of an item: an entry that can be read counts,
    else the row. -/
def countFound (s : World ι) (up : Bool) (item : Item) : I64 :=
  ((s.cache.found up (countCacheKey item)).bind I64.parse).getD
    (s.db.store.committed.totalCount item)

/-- The state after the counts of the keys have been written. -/
def countsWritten (s : World ι) (up : Bool) (keys : List CacheKey) : World ι :=
  { s with cache := s.cache.stored up (countTexts s.db.store.committed) keys }

/-- The state after `keys` have been looked up, the counts of `written` have been written and
    the flights are `f`. -/
def countsRead (s : World ι) (up : Bool) (keys written : List CacheKey) (f : Flights ι) : World ι :=
  { s with
    cache := (s.cache.loaded up keys).stored up (countTexts s.db.store.committed) written
    flights := f }

variable [DecidableEq ι]

section Counts

variable {cfg : Config} {q : Alone} {i : ι} {s s' : World ι} {item : Item} {α β : Type}

theorem exec_then {p : Svc α} {f : α → Svc β} {a : α}
    (h : p.exec (quietly cfg q i) s = some (s', a)) :
    (p >>= f).exec (quietly cfg q i) s = (f a).exec (quietly cfg q i) s' := by
  rw [Prog.bind_eq, Prog.exec_bind, h, Option.bind_some]

theorem exec_flight {o : PendingFetches.Op} {f : Flights ι} {r : o.Ans}
    (h : PendingFetches.handle s.flights i o .elapsed = some (f, r)) :
    (flight o).exec (quietly cfg q i) s = some ({ s with flights := f }, r) := by
  have hop : quietly cfg q i s (.flight o) = some ({ s with flights := f }, r) := by
    unfold quietly handle
    show (PendingFetches.handle s.flights i o .elapsed).map _ = _
    rw [h]
    rfl
  rw [flight, perform, Prog.exec_perform]
  exact hop

theorem exec_countRow (item : Item) : (db (Repositories.getCount item)).exec (quietly cfg q i) s =
    some (s, .ok (s.db.store.committed.totalCount item)) := rfl

/-- A receiver that has seen everything waits for a sender that is gone, or for too long. -/
theorem exec_awaitSharedCount {rx : Receiver} (h : Unserved s.flights rx) :
    (awaitSharedCount rx).exec (quietly cfg q i) s = some (s, none) := by
  obtain ⟨ch, hch, hseen⟩ := h
  have hwait : PendingFetches.handle s.flights i (.changed rx) .elapsed =
      some (s.flights, if ch.senders = [] then .closed else .timedOut) := by
    unfold PendingFetches.handle
    dsimp only
    rw [hch]
    dsimp only
    rw [if_neg (by simp [hseen])]
    split_ifs <;> rfl
  unfold awaitSharedCount
  rw [exec_then (exec_flight hwait)]
  split_ifs <;> rfl

/-- Taking an entry out leaves the channels of the other keys as they are. -/
theorem exec_remove (key : CacheKey) :
    ∃ f tx, (flight (.remove key)).exec (quietly cfg q i) s = some ({ s with flights := f }, tx) ∧
      (Registered s.flights → Registered f ∧ (∀ id, tx = some id → id.1 = key)) ∧
      ∀ rx, Unserved s.flights rx → Unserved f rx := by
  cases hpending : s.flights.pending key with
  | none =>
    have hremove : PendingFetches.handle s.flights i (.remove key) .elapsed =
        some (s.flights, none) := by simp [PendingFetches.handle, hpending]
    exact ⟨_, _, exec_flight hremove, fun h => ⟨h, fun id hid => by cases hid⟩, fun _ h => h⟩
  | some id =>
    let g : Channel ι → Channel ι := fun ch => { ch with senders := some i :: ch.senders.erase none }
    have hremove : PendingFetches.handle s.flights i (.remove key) .elapsed =
        some ({ s.flights.modify id g with
          pending := Function.update s.flights.pending key none }, some id) := by
      simp [PendingFetches.handle, hpending, g]
    refine ⟨_, _, exec_flight hremove, fun h => ⟨⟨fun key' id' hid' => ?_, fun key' id' hid' => ?_⟩,
      fun id' hid' => ?_⟩, fun rx h => ?_⟩
    · by_cases hkey : key' = key
      · subst hkey
        simp at hid'
      · simp only [Function.update_of_ne hkey] at hid'
        exact h.keyed key' id' hid'
    · by_cases hkey : key' = key
      · subst hkey
        simp at hid'
      · simp only [Function.update_of_ne hkey] at hid'
        exact (h.modify (g := g)).made key' id' hid'
    · rw [← Option.some.inj hid']
      exact h.keyed key id hpending
    · exact h.modify fun _ _ => rfl

/-- Sending on a channel of another key, or giving a handle up, serves nobody. -/
theorem exec_send (tx : ChanId) (count : I64) :
    ∃ f, (flight (.send tx count)).exec (quietly cfg q i) s = some ({ s with flights := f }, ()) ∧
      (Registered s.flights → Registered f) ∧
      ∀ rx, rx.chan ≠ tx → Unserved s.flights rx → Unserved f rx :=
  ⟨_, exec_flight rfl, fun h => h.modify, fun _ hrx h => h.modify fun he => absurd he hrx⟩

theorem exec_dropSender (tx : ChanId) :
    ∃ f, (flight (.dropSender tx)).exec (quietly cfg q i) s = some ({ s with flights := f }, ()) ∧
      (Registered s.flights → Registered f) ∧ ∀ rx, Unserved s.flights rx → Unserved f rx :=
  ⟨_, exec_flight rfl, fun h => h.modify, fun _ h => h.modify fun _ _ => rfl⟩

theorem exec_dropReceiver (rx : Receiver) :
    ∃ f, (flight (.dropReceiver rx)).exec (quietly cfg q i) s = some ({ s with flights := f }, ()) ∧
      ∀ rx', Unserved s.flights rx' → Unserved f rx' :=
  ⟨_, exec_flight rfl, fun _ h => h.modify fun _ _ => rfl⟩

variable (cfg) in
theorem exec_writeCount (item : Item) : (writeCount cfg item
      (s.db.store.committed.totalCount item)).exec (quietly cfg q i) s =
    some (countsWritten s q.up [countCacheKey item], ()) := by
  have hset := Cache.exec_set q.up s.cache (countTexts s.db.store.committed)
    cfg.cacheTtlLikeCountsSecs (countCacheKey item)
  unfold writeCount
  rw [exec_cache]
  show ((Cache.set (countCacheKey item) (countTexts s.db.store.committed (countCacheKey item))
    cfg.cacheTtlLikeCountsSecs).exec (Cache.steady q.up) s.cache).map _ = _
  rw [hset]
  rfl

theorem exec_removePending (key : CacheKey) :
    ∃ f, (removePending key).exec (quietly cfg q i) s = some ({ s with flights := f }, ()) := by
  obtain ⟨f, tx, hremove, -, -⟩ := exec_remove (q := q) (i := i) (s := s) key
  unfold removePending
  rw [exec_then hremove]
  cases tx with
  | none => exact ⟨f, rfl⟩
  | some id => exact ⟨_, exec_flight rfl⟩

/-- The leader of a fetch answers with the row and writes it. -/
theorem exec_leadCount (item : Item) (tx : ChanId) :
    ∃ f, (leadCount cfg item tx).exec (quietly cfg q i) s =
      some ({ countsWritten s q.up [countCacheKey item] with flights := f },
        .ok (s.db.store.committed.totalCount item)) := by
  unfold leadCount
  rw [exec_then (exec_countRow item)]
  dsimp only
  rw [exec_then (exec_flight rfl)]
  obtain ⟨f, hremove⟩ := exec_removePending (q := q) (i := i)
    (s := { s with flights := _ }) (countCacheKey item)
  rw [exec_then hremove, exec_then (exec_writeCount cfg item), exec_then (exec_flight rfl)]
  exact ⟨_, rfl⟩

/-- A follower that is not served answers with the row. -/
theorem exec_followCount (item : Item) {rx : Receiver} (h : Unserved s.flights rx) :
    ∃ f, (followCount item rx).exec (quietly cfg q i) s =
      some ({ s with flights := f }, .ok (s.db.store.committed.totalCount item)) := by
  unfold followCount
  rw [exec_then (exec_awaitSharedCount h)]
  dsimp only
  rw [exec_then (exec_countRow item), exec_then (exec_flight rfl)]
  exact ⟨_, rfl⟩

/-- `get_count_value` for an entry that is missing or rejected. -/
theorem exec_getCountValue (hregistered : Registered s.flights)
    (hmiss : (s.cache.found q.up (countCacheKey item)).bind I64.parse = none) :
    ∃ f, (getCountValue cfg item).exec (quietly cfg q i) s =
      some (countsRead s q.up [countCacheKey item]
        (if s.flights.pending (countCacheKey item) = none then [countCacheKey item] else []) f,
        .ok (s.db.store.committed.totalCount item)) := by
  let loaded : World ι := { s with cache := s.cache.loaded q.up [countCacheKey item] }
  have hget : (cache (Cache.get (countCacheKey item))).exec (quietly cfg q i) s =
      some (loaded, s.cache.found q.up (countCacheKey item)) := by
    rw [exec_cache, Cache.exec_get]
    rfl
  obtain ⟨f, role, hentry, -, -, hrole⟩ := hregistered.entry i (countCacheKey item) true
  have hentry : (flight (.entry (countCacheKey item) true)).exec (quietly cfg q i) loaded =
      some ({ loaded with flights := f }, role) := exec_flight hentry
  unfold getCountValue
  rw [exec_then hget, hmiss]
  dsimp only
  rw [exec_then hentry]
  cases role with
  | leader tx =>
    rw [if_pos hrole.1]
    exact exec_leadCount item tx
  | follower rx =>
    rw [if_neg hrole.1]
    obtain ⟨f', hfollow⟩ := exec_followCount (q := q) (i := i)
      (s := { loaded with flights := f }) item hrole.2.2
    refine ⟨f', ?_⟩
    unfold countsRead
    rw [Cache.CacheState.stored_nil]
    exact hfollow

/-! ## Many counts -/

variable {items : List Item} {missing : MissingMap}

/-- The keys of a batch that have to be fetched are those without a count that can be read. -/
theorem mem_splitCached_keys (found : CacheKey → Option String) (before rest : List Item)
    (results : List BatchCountResult) (missing : MissingMap) (key : CacheKey) :
    key ∈ (splitCached ((before ++ rest).map fun item => found (countCacheKey item)) before.length
        rest results missing).2.keys ↔
      key ∈ missing.keys ∨
        key ∈ rest.map countCacheKey ∧ (found key).bind I64.parse = none := by
  induction rest generalizing before results missing with
  | nil => simp [splitCached]
  | cons item rest ih =>
    have hget : (((before ++ item :: rest).map fun item => found (countCacheKey item))[before.length]?).join =
        found (countCacheKey item) := by
      simp
    have hih := ih (before ++ [item])
    rw [List.length_append, List.length_singleton, List.append_assoc, List.singleton_append] at hih
    unfold splitCached
    rw [hget]
    cases hparse : (found (countCacheKey item)).bind I64.parse with
    | some count =>
      dsimp only
      rw [hih, List.map_cons, List.mem_cons]
      by_cases hkey : key = countCacheKey item
      · subst hkey
        simp [hparse]
      · simp [hkey]
    | none =>
      dsimp only
      rw [hih, MissingMap.keys_push, List.map_cons, List.mem_cons]
      by_cases hkey : key = countCacheKey item
      · subst hkey
        split_ifs with hmem
        · simp [hparse, hmem]
        · simp [hparse]
      · split_ifs with hmem <;> simp [hkey]

/-- The election of a batch: its followers have seen all that has been sent. -/
theorem exec_electLoop (keys visited : List CacheKey) (e : Election)
    (hregistered : Registered s.flights) (helected : Elected items missing visited e)
    (hunserved : ∀ x ∈ e.followerRxs, Unserved s.flights x.2) (hnodup : (visited ++ keys).Nodup) :
    ∃ f e', (electLoop items missing keys e).exec (quietly cfg q i) s =
        some ({ s with flights := f }, e') ∧
      Registered f ∧ Elected items missing (visited ++ keys) e' ∧
      ∀ x ∈ e'.followerRxs, Unserved f x.2 := by
  induction keys generalizing s visited e with
  | nil =>
    rw [List.append_nil]
    exact ⟨s.flights, e, rfl, hregistered, helected, hunserved⟩
  | cons key keys ih =>
    obtain ⟨f, role, hentry, hregistered', hothers, hrole⟩ := hregistered.entry i key false
    have hkey : key ∉ visited := fun hmem =>
      (List.nodup_append.mp hnodup).2.2 key hmem key List.mem_cons_self rfl
    have hstill : ∀ x ∈ e.followerRxs, Unserved f x.2 := by
      intro x hx
      refine hothers x.2 (fun he => hkey ?_) (hunserved x hx)
      rw [← he, helected.chan x hx]
      exact helected.sorted.mem_iff.mp
        (List.mem_append_right _ (List.mem_map.mpr ⟨x, hx, rfl⟩))
    have hassoc : visited ++ key :: keys = (visited ++ [key]) ++ keys := by simp
    rw [hassoc] at hnodup ⊢
    unfold electLoop
    rw [exec_then (exec_flight hentry)]
    cases role with
    | leader tx => exact ih _ _ hregistered' helected.lead hstill hnodup
    | follower rx =>
      refine ih _ _ hregistered' (helected.follow hrole.2.1) (fun x hx => ?_) hnodup
      rcases List.mem_append.mp hx with hx | hx
      · exact hstill x hx
      · rw [List.mem_singleton.mp hx]
        exact hrole.2.2

/-- The leaders of a batch: each key is crossed off, and the followers are not served. -/
theorem exec_leaderLoop {known : Item → I64 → Prop} (countMap : Item → Option I64)
    {rxs : List (CacheKey × Receiver)} {todo : List CacheKey} (htracked : Tracked items missing)
    (keys : List CacheKey) (hregistered : Registered s.flights)
    (hcount : ∀ key ∈ keys, ∃ item, firstItem items missing key = some item ∧
      countCacheKey item = key ∧ countMap item = some (s.db.store.committed.totalCount item) ∧
      known item (s.db.store.committed.totalCount item))
    (hunserved : ∀ x ∈ rxs, Unserved s.flights x.2 ∧ x.2.chan.1 ∉ keys)
    (results : List BatchCountResult) (entries : List (CacheKey × String × ℕ))
    (hfilled : Filled known items missing (keys ++ todo) results) :
    ∃ f results', (leaderLoop cfg items missing countMap keys results entries).exec
        (quietly cfg q i) s =
        some ({ s with flights := f }, (results', entries ++ keys.map fun key =>
          (key, countTexts s.db.store.committed key, cfg.cacheTtlLikeCountsSecs))) ∧
      Filled known items missing todo results' ∧ ∀ x ∈ rxs, Unserved f x.2 := by
  induction keys generalizing s results entries with
  | nil =>
    rw [List.map_nil, List.append_nil]
    exact ⟨s.flights, results, rfl, hfilled, fun x hx => (hunserved x hx).1⟩
  | cons key keys ih =>
    obtain ⟨item, hfirst, hkey, hmap, hknown⟩ := hcount key List.mem_cons_self
    have hvalue : ((firstItem items missing key).bind countMap).getD 0 =
        s.db.store.committed.totalCount item := by
      rw [hfirst, Option.bind_some, hmap, Option.getD_some]
    have htext : countTexts s.db.store.committed key =
        (s.db.store.committed.totalCount item).toString := by
      rw [← hkey]
      rfl
    -- the rest of the loop, over whatever the flights are by then
    have hnext : ∀ f, Registered f → (∀ x ∈ rxs, Unserved f x.2) → _ := fun f hf hrxs =>
      ih (s := { s with flights := f }) hf
        (fun key' hkey' => hcount key' (List.mem_cons_of_mem _ hkey'))
        (fun x hx => ⟨hrxs x hx, fun hmem => (hunserved x hx).2 (List.mem_cons_of_mem _ hmem)⟩)
        (setCounts results (missing.positions key) (s.db.store.committed.totalCount item))
        (entries ++ [(key, (s.db.store.committed.totalCount item).toString,
          cfg.cacheTtlLikeCountsSecs)])
        (hfilled.setCounts htracked hkey hknown)
    rw [List.map_cons, htext, List.append_cons]
    obtain ⟨f, tx, hremove, hkeyed, hstill⟩ := exec_remove (q := q) (i := i) (s := s) key
    obtain ⟨hf, htx⟩ := hkeyed hregistered
    unfold leaderLoop
    rw [exec_then hremove, hvalue]
    cases tx with
    | none => exact hnext f hf fun x hx => hstill x.2 (hunserved x hx).1
    | some tx =>
      obtain ⟨f₁, hsend, hf₁, hstill₁⟩ := exec_send (q := q) (i := i)
        (s := { s with flights := f }) tx (s.db.store.committed.totalCount item)
      obtain ⟨f₂, hdrop, hf₂, hstill₂⟩ := exec_dropSender (q := q) (i := i)
        (s := { s with flights := f₁ }) tx
      dsimp only
      rw [exec_then hsend, exec_then hdrop]
      refine hnext f₂ (hf₂ (hf₁ hf)) fun x hx => hstill₂ x.2 (hstill₁ x.2 (fun he => ?_) ?_)
      · refine (hunserved x hx).2 ?_
        rw [he, htx tx rfl]
        exact List.mem_cons_self
      · exact hstill x.2 (hunserved x hx).1

/-- The followers of a batch: none is served, and each answers with the row and writes it. -/
theorem exec_followerLoop {known : Item → I64 → Prop} (htracked : Tracked items missing)
    (rxs : List (CacheKey × Receiver))
    (hcount : ∀ x ∈ rxs, ∃ item, firstItem items missing x.1 = some item ∧
      countCacheKey item = x.1 ∧ known item (s.db.store.committed.totalCount item))
    (hunserved : ∀ x ∈ rxs, Unserved s.flights x.2) (results : List BatchCountResult)
    (hfilled : Filled known items missing (rxs.map Prod.fst) results) :
    ∃ f results', (followerLoop cfg items missing rxs results).exec (quietly cfg q i) s =
        some ({ countsWritten s q.up (rxs.map Prod.fst) with flights := f }, .ok results') ∧
      Filled known items missing [] results' := by
  induction rxs generalizing s results with
  | nil =>
    unfold countsWritten
    rw [List.map_nil, Cache.CacheState.stored_nil]
    exact ⟨s.flights, results, rfl, hfilled⟩
  | cons x rxs ih =>
    obtain ⟨key, rx⟩ := x
    obtain ⟨item, hfirst, hkey, hknown⟩ := hcount (key, rx) List.mem_cons_self
    have hwrite := exec_writeCount cfg (q := q) (i := i) (s := s) item
    obtain ⟨f, hdrop, hstill⟩ := exec_dropReceiver (q := q) (i := i)
      (s := countsWritten s q.up [countCacheKey item]) rx
    obtain ⟨f', results', hrest, hfilled'⟩ := ih
      (s := { countsWritten s q.up [countCacheKey item] with flights := f })
      (fun x hx => hcount x (List.mem_cons_of_mem _ hx))
      (fun x hx => hstill x.2 (hunserved x (List.mem_cons_of_mem _ hx)))
      (setCounts results (missing.positions key) (s.db.store.committed.totalCount item))
      (hfilled.setCounts htracked hkey hknown)
    unfold followerLoop
    rw [exec_then (exec_awaitSharedCount (hunserved _ List.mem_cons_self))]
    dsimp only at hfirst ⊢
    rw [hfirst]
    dsimp only
    rw [exec_then (exec_countRow item)]
    dsimp only
    rw [exec_then hwrite, exec_then hdrop]
    refine ⟨f', results', ?_, hfilled'⟩
    rw [hrest, hkey]
    unfold countsWritten
    dsimp only
    rw [Cache.CacheState.stored_stored]
    rfl

/-- The rows of the batch query are the counts of its items. -/
theorem exec_batchRows {toFetch : List Item} (h : toFetch ≠ []) :
    (db (Repositories.batchGetCounts toFetch)).exec (quietly cfg q i) s =
      some (s, .ok (shuffle q.order (toFetch.map fun item =>
        (item, s.db.store.committed.totalCount item)))) := by
  unfold Repositories.batchGetCounts
  rw [if_neg h]
  exact exec_db rfl

theorem collectRows_counts {t : Tables} {order : List ℕ} {toFetch : List Item}
    (hitem : item ∈ toFetch) :
    collectRows (shuffle order (toFetch.map fun item => (item, t.totalCount item))) item =
      some (t.totalCount item) := by
  have hperm := shuffle_perm order (toFetch.map fun item => (item, t.totalCount item))
  refine collectRows_eq (fun row hrow => ?_) ?_
  · obtain ⟨item', -, rfl⟩ := List.mem_map.mp (hperm.mem_iff.mp hrow)
    rfl
  · rw [(hperm.map Prod.fst).mem_iff, List.map_map]
    exact List.mem_map.mpr ⟨item, hitem, rfl⟩

/-- The part of a batch after the election. -/
theorem exec_fetchMissing {known : Item → I64 → Prop} {e : Election} {visited : List CacheKey}
    {results : List BatchCountResult} (hregistered : Registered s.flights)
    (htracked : Tracked items missing) (helected : Elected items missing visited e)
    (hnodup : visited.Nodup) (hvisited : ∀ key, key ∈ visited ↔ key ∈ missing.keys)
    (hunserved : ∀ x ∈ e.followerRxs, Unserved s.flights x.2)
    (hknown : ∀ key ∈ missing.keys, ∀ item, countCacheKey item = key →
      known item (s.db.store.committed.totalCount item))
    (hfilled : Filled known items missing missing.keys results) :
    ∃ f results', (fetchMissing cfg items missing results e).exec (quietly cfg q i) s =
        some ({ countsWritten s q.up (e.leaderKeys ++ e.followerRxs.map Prod.fst) with
          flights := f }, .ok results') ∧
      Filled known items missing [] results' := by
  have hmem : ∀ key ∈ e.leaderKeys ++ e.followerRxs.map Prod.fst, key ∈ missing.keys :=
    fun key hkey => (hvisited key).mp (helected.sorted.mem_iff.mp hkey)
  have hitem : ∀ key ∈ e.leaderKeys ++ e.followerRxs.map Prod.fst, ∃ item,
      firstItem items missing key = some item ∧ countCacheKey item = key ∧
        known item (s.db.store.committed.totalCount item) := by
    intro key hkey
    obtain ⟨item, hfirst, hitem⟩ := htracked.firstItem (hmem key hkey)
    exact ⟨item, hfirst, hitem, hknown key (hmem key hkey) item hitem⟩
  have htodo : Filled known items missing (e.leaderKeys ++ e.followerRxs.map Prod.fst) results :=
    hfilled.mono (fun _ _ h => h) fun key hkey =>
      helected.sorted.mem_iff.mpr ((hvisited key).mpr hkey)
  unfold fetchMissing
  split_ifs with hnone
  · have hleaders : e.leaderKeys = [] :=
      helected.leaderKeys_nil htracked (fun key hkey => (hvisited key).mp hkey) hnone
    rw [hleaders, List.nil_append] at hitem htodo ⊢
    exact exec_followerLoop htracked e.followerRxs
      (fun x hx => hitem x.1 (List.mem_map.mpr ⟨x, hx, rfl⟩)) hunserved results htodo
  · have hapart : ∀ x ∈ e.followerRxs, Unserved s.flights x.2 ∧ x.2.chan.1 ∉ e.leaderKeys := by
      intro x hx
      refine ⟨hunserved x hx, fun hlead => ?_⟩
      have hdisjoint := (List.nodup_append.mp (helected.sorted.nodup_iff.mpr hnodup)).2.2
      exact hdisjoint _ hlead _ (List.mem_map.mpr ⟨x, hx, (helected.chan x hx).symm⟩) rfl
    obtain ⟨f, filled, hlead, hfilled', hstill⟩ := exec_leaderLoop (q := q) (i := i) (s := s)
      (collectRows (shuffle q.order (e.toFetch.map fun item =>
        (item, s.db.store.committed.totalCount item)))) htracked e.leaderKeys hregistered
      (fun key hkey => by
        obtain ⟨item, hfirst, hkey', hitem'⟩ := hitem key (List.mem_append_left _ hkey)
        exact ⟨item, hfirst, hkey', collectRows_counts (helected.mem_toFetch hkey hfirst), hitem'⟩)
      hapart results [] htodo
    have hset := Cache.exec_setMany q.up s.cache (countTexts s.db.store.committed)
      cfg.cacheTtlLikeCountsSecs e.leaderKeys
    have hwrite : (cache (Cache.setMany ([] ++ e.leaderKeys.map fun key =>
        (key, countTexts s.db.store.committed key, cfg.cacheTtlLikeCountsSecs)))).exec
        (quietly cfg q i) { s with flights := f } =
        some ({ countsWritten s q.up e.leaderKeys with flights := f }, ()) := by
      rw [exec_cache, List.nil_append]
      show ((Cache.setMany _).exec (Cache.steady q.up) s.cache).map _ = _
      rw [hset]
      rfl
    obtain ⟨f', results', hfollow, hdone⟩ := exec_followerLoop (q := q) (i := i)
      (s := { countsWritten s q.up e.leaderKeys with flights := f }) htracked e.followerRxs
      (fun x hx => hitem x.1 (List.mem_append_right _ (List.mem_map.mpr ⟨x, hx, rfl⟩)))
      hstill filled hfilled'
    rw [exec_then (exec_batchRows hnone)]
    dsimp only
    rw [exec_then hlead, exec_then hwrite, hfollow]
    refine ⟨f', results', ?_, hdone⟩
    unfold countsWritten
    dsimp only
    rw [Cache.CacheState.stored_stored]

theorem exec_batchCounts (hregistered : Registered s.flights) (hlength : items.length ≤ 100) :
    ∃ f written, (batchCounts cfg items).exec (quietly cfg q i) s =
        some (countsRead s q.up (items.map countCacheKey) written f,
          .ok (items.map fun item => ⟨item.1, item.2, countFound s q.up item⟩)) ∧
      ∀ item ∈ items, (s.cache.found q.up (countCacheKey item)).bind I64.parse = none →
        countCacheKey item ∈ written := by
  let known : Item → I64 → Prop := fun item count => count = countFound s q.up item
  let loaded : World ι := { s with cache := s.cache.loaded q.up (items.map countCacheKey) }
  let cached := items.map fun item => s.cache.found q.up (countCacheKey item)
  let split := splitCached cached 0 items [] []
  have hmget : (cache (Cache.mget (items.map countCacheKey))).exec (quietly cfg q i) s =
      some (loaded, cached) := by
    rw [exec_cache, Cache.exec_mget, List.map_map]
    rfl
  have htracked : Tracked items split.2 := splitCached_tracked cached items
  have hmissing : ∀ key, key ∈ split.2.keys ↔
      key ∈ items.map countCacheKey ∧ (s.cache.found q.up key).bind I64.parse = none := by
    intro key
    refine (mem_splitCached_keys (s.cache.found q.up) [] items [] [] key).trans ?_
    simp [MissingMap.keys]
  have hfilled : Filled known items split.2 split.2.keys split.1 := by
    refine splitCached_filled fun n item hitem count hcount => ?_
    have hget : cached[n]?.join = s.cache.found q.up (countCacheKey item) := by
      simp [cached, hitem]
    rw [hget] at hcount
    show count = countFound s q.up item
    rw [countFound, hcount, Option.getD_some]
  have hresults : ∀ results, Filled known items split.2 [] results →
      results = items.map fun item => ⟨item.1, item.2, countFound s q.up item⟩ :=
    fun results h => h.counted.eq_map
  unfold batchCounts
  rw [if_neg (by omega), exec_then hmget]
  show ∃ f written, (if split.2 = [] then _ else _ : Svc _).exec _ _ = _ ∧ _
  by_cases hnone : split.2 = []
  · -- every entry could be read
    rw [if_pos hnone]
    refine ⟨s.flights, [], ?_, fun item hitem hmiss => ?_⟩
    · rw [← hresults split.1 (hfilled.mono (fun _ _ h => h) fun key hkey => by
        rw [hnone] at hkey
        cases hkey)]
      unfold countsRead
      rw [Cache.CacheState.stored_nil]
      rfl
    · have hkey := (hmissing (countCacheKey item)).mpr ⟨List.mem_map_of_mem hitem, hmiss⟩
      rw [hnone] at hkey
      cases hkey
  · rw [if_neg hnone]
    have horder : (perform .hashOrder).exec (quietly cfg q i) loaded = some (loaded, q.hash) := rfl
    have hperm := shuffle_perm q.hash split.2.keys
    obtain ⟨f, e, helect, hregistered', helected, hunserved⟩ := exec_electLoop (q := q)
      (i := i) (s := loaded) (shuffle q.hash split.2.keys) [] ⟨[], [], []⟩ hregistered
      elected_nil (fun x hx => by cases hx)
      (hperm.nodup_iff.mpr htracked.nodup)
    rw [List.nil_append] at helected
    obtain ⟨f', results, hfetch, hdone⟩ := exec_fetchMissing (q := q) (i := i)
      (s := { loaded with flights := f }) hregistered' htracked helected
      (hperm.nodup_iff.mpr htracked.nodup) (fun key => hperm.mem_iff) hunserved
      (fun key hkey item hitem => by
        show _ = countFound s q.up item
        rw [countFound, hitem, ((hmissing key).mp hkey).2, Option.getD_none])
      hfilled
    rw [exec_then horder, exec_then helect, hfetch, hresults results hdone]
    refine ⟨f', e.leaderKeys ++ e.followerRxs.map Prod.fst, rfl, fun item hitem hmiss => ?_⟩
    exact helected.sorted.mem_iff.mpr (hperm.mem_iff.mpr
      ((hmissing (countCacheKey item)).mpr ⟨List.mem_map_of_mem hitem, hmiss⟩))

end Counts

end SocialApi.Services
